import Qemacs.Lib.Chunks
import Qemacs.Lib.Splice
import Qemacs.Lib.Rect
import Qemacs.Lib.Glob
import Qemacs.Charset.Basic
import Qemacs.Charset.EightBit
import Qemacs.Charset.Utf8
import Qemacs.Charset.Ucs
import Qemacs.Buffer.Page
import Qemacs.Buffer.Insert
import Qemacs.Buffer.Access
import Qemacs.Buffer.Log
import Qemacs.Buffer.Edit
import Qemacs.Buffer.Refinement
import Qemacs.Buffer.Undo
import Qemacs.Buffer.Notify
import Qemacs.Buffer.Chars
import Qemacs.Buffer.Readers
import Qemacs.Display.Colorize
import Qemacs.Script.Lexer
import Qemacs.Script.Token
import Qemacs.Script.Value
import Qemacs.Script.Interp
import Qemacs.Html.CssParse
import Qemacs.Buffer.PageCache
import Qemacs.Html.XmlParse
import Qemacs.Search.Basic
import Qemacs.Search.Spec
import Qemacs.Command.Basic
import Qemacs.Command.Bindings
import Qemacs.Search.Replace
import Qemacs.Command.Kill
import Qemacs.Search.Lines
import Qemacs.Command.Offsets
import Qemacs.Buffer.Properties
import Qemacs.Command.Block
import Qemacs.Command.Tabify
import Qemacs.Command.Paragraph
import Qemacs.Command.Transpose
import Qemacs.Command.Fill
import Qemacs.Util.Qsort
import Qemacs.Util.QsortRun
import Qemacs.Util.QsortSorted
import Qemacs.Command.Sort
import Qemacs.Display.Window
import Qemacs.Tty.Input
import Qemacs.Shell.Term
import Qemacs.Shell.TermGoto
import Qemacs.Tty.Screen
import Qemacs.Tty.CombCache
import Qemacs.Lang.Clang
import Qemacs.Util.Match
import Qemacs.Util.Strx
import Qemacs.Util.Path
import Qemacs.Util.Keys
import Qemacs.Util.Collate
import Qemacs.Charset.Utf8Codec
import Qemacs.Util.Base64
import Qemacs.Util.BufT
import Qemacs.Display.Glyphs
import Qemacs.Display.Bidi
import Qemacs.Modes.Hex
import Qemacs.Display.Picture
import Qemacs.Lib.Raster
import Qemacs.Display.PictureCopy
import Qemacs.Lib.Layout
import Qemacs.Tty.CombAlloc
import Qemacs.Tty.Driver
import Qemacs.Lib.Mirror
import Qemacs.Tty.Flush
import Qemacs.Tty.Refresh
import Qemacs.Buffer.History
