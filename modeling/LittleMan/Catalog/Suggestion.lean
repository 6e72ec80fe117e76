import LittleMan.Catalog.Distance
import LittleMan.Catalog.Mnemonic

/-! Mnemonics proposed in place of a word that is none, and for completion. -/

namespace LittleMan

/-- Whether a mnemonic is proposed for a word: both start with the same letter, or at most two edits
lie between them. -/
def isSuggestion (word : List CodePoint) (m : Mnemonic) : Bool :=
  (word.head?.isSome && m.text.head? == word.head?) || editDistance word m.text ≤ 2

def suggestions (word : List CodePoint) : List Mnemonic :=
  Mnemonic.all.filter (isSuggestion word)

structure Completion where
  label : Text
  detail : Text
  doc : Text
  kind : Text := "keyword"
  deriving DecidableEq, Repr

def completions : List Completion :=
  Mnemonic.all.map fun m => { label := m.name, detail := m.usage, doc := m.summary }

end LittleMan
