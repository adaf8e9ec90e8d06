import Concolic.Text.Numeral

/-!
# Literal texts

Conditions refer to literal texts by number. A lexicon assigns the numbers: it only ever grows, a
text keeps its number, and no text has two.
-/

namespace Concolic

/-- The number of a literal text. -/
structure LiteralId where
  val : UInt32
  deriving DecidableEq, Repr

/-- The literal texts known so far, in the order of their numbers. -/
structure Lexicon where
  texts : List String := []
  deriving DecidableEq, Repr, Inhabited

namespace Lexicon

/-- The number of a text that is known. -/
def lookup? (lexicon : Lexicon) (text : String) : Option LiteralId :=
  (lexicon.texts.idxOf? text).map fun position => ⟨.ofNat position⟩

/-- The number of a text, which is added as the last one if it is new. -/
def intern (lexicon : Lexicon) (text : String) : LiteralId × Lexicon :=
  match lexicon.lookup? text with
  | some id => (id, lexicon)
  | none => (⟨.ofNat lexicon.texts.length⟩, { texts := lexicon.texts ++ [text] })

/-- Interns texts one after another. -/
def internAll (lexicon : Lexicon) : List String → List LiteralId × Lexicon
  | [] => ([], lexicon)
  | text :: rest =>
      let (id, extended) := lexicon.intern text
      let (ids, complete) := extended.internAll rest
      (id :: ids, complete)

def ofTexts (texts : List String) : Lexicon :=
  (({} : Lexicon).internAll texts).2

def resolve? (lexicon : Lexicon) (id : LiteralId) : Option String :=
  lexicon.texts[id.val.toNat]?

/-- The text of a number, with a stand-in that shows the number if it is unknown. -/
def text (lexicon : Lexicon) (id : LiteralId) : String :=
  (lexicon.resolve? id).getD ("string" ++ Numeral.text id.val.toNat)

end Lexicon

end Concolic
