import BlockCompiler.Document
import BlockCompiler.Markup.Tree

set_option autoImplicit false

/-! # XML

Documents that are XML: the command line reads them with the parser of `Markup.Tree`. -/

namespace BlockCompiler

/-- Reads a document from XML. -/
def Document.ofText (source : String) : Except LoadError Document :=
  load Markup.Element.ofDocument? source

/-- Compiles a document that is XML. -/
def compileText (source : String) (board? : Option Board) : Except LoadError Program :=
  compileSource Markup.Element.ofDocument? source board?

end BlockCompiler
