import Mirrorlane.Foundation.KeyedStore

/-!
# Values kept as text

A `TextCodec readBack τ` writes values as text of type `τ` and parses text.  A value that is written
is parsed as `readBack` of it, which need not be the value itself.

A store of texts is read at a key (`lookup`), and the reading fails on a text that does not parse.
`Readable` is a text that does: a store of these is a store of values (`lookup_map_text`), and
writing keeps it one.
-/

namespace Mirrorlane

universe u v w

/-- How values are written as text, and what the text is parsed as. -/
structure TextCodec {α : Type u} (readBack : α → α) (τ : Type v) where
  toText : α → τ
  fromText : τ → Option α
  fromText_toText : ∀ a, fromText (toText a) = some (readBack a)

namespace TextCodec

variable {α : Type u} {readBack : α → α} {τ : Type v} (codec : TextCodec readBack τ)

/-- The value at a key: `none` when its text does not parse. -/
def lookup {κ : Type w} (store : KeyedStore κ τ) (k : κ) : Option (Option α) :=
  match store k with
  | none => some none
  | some text => (codec.fromText text).map some

/-- A write does not touch other keys. -/
theorem lookup_insert_of_ne {κ : Type w} [DecidableEq κ] (store : KeyedStore κ τ) {k k' : κ}
    (h : k' ≠ k) (text : τ) : codec.lookup (store.insert k text) k' = codec.lookup store k' := by
  rw [lookup, lookup, KeyedStore.insert_of_ne _ h]

/-- A text that parses. -/
structure Readable where
  text : τ
  isSome_fromText : (codec.fromText text).isSome

/-- The value of a text. -/
def Readable.value {codec : TextCodec readBack τ} (readable : codec.Readable) : α :=
  (codec.fromText readable.text).get readable.isSome_fromText

/-- The text of a value. -/
def write (a : α) : codec.Readable where
  text := codec.toText a
  isSome_fromText := by rw [codec.fromText_toText]; rfl

@[simp] theorem value_write (a : α) : (codec.write a).value = readBack a := by
  simp only [Readable.value, write, codec.fromText_toText, Option.get_some]

/-- A store of texts that parse can be read at every key. -/
theorem lookup_map_text {κ : Type w} (store : KeyedStore κ codec.Readable) (k : κ) :
    codec.lookup (store.map Readable.text) k = some ((store k).map Readable.value) := by
  rw [lookup, KeyedStore.map_apply]
  cases store k with
  | none => rfl
  | some readable =>
    show (codec.fromText readable.text).map some = some (some readable.value)
    rw [← Option.some_get readable.isSome_fromText]
    rfl

end TextCodec

end Mirrorlane
