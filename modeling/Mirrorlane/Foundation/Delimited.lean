import Mathlib.Data.List.Basic
import Mathlib.Data.List.DropRight

/-!
# Joining strings with a separator

`joined sep a b` is `a`, the separator and `b`.  The parts may contain the separator themselves, so
a joined string does not determine them: it determines them up to moving a separated piece from the
end of the first part to the front of the second (`joined_eq_joined_iff`).

A separator that does not occur on one side of it is different: it is the first one or the last one,
and the two parts are determined (`append_cons_inj_of_notMem_left`,
`append_cons_inj_of_notMem_right`); `splitOnce` and `lastSegment` find them.  So is a terminator
that occurs in no word: a sequence of terminated words determines the words
(`terminated_injective`).
-/

namespace Mirrorlane

/-- Two lists joined at an element that may occur in them. -/
theorem append_cons_eq_append_cons_iff {α : Type*} {d : α} {a b a' b' : List α} :
    a ++ d :: b = a' ++ d :: b' ↔ (a = a' ∧ b = b') ∨
      (∃ x, a' = a ++ d :: x ∧ b = x ++ d :: b') ∨ ∃ x, a = a' ++ d :: x ∧ b' = x ++ d :: b := by
  rw [List.append_eq_append_iff]
  constructor
  · -- `x` is how far one first part goes past the other: not at all, or past an occurrence of `d`
    rintro (⟨x, rfl, hx⟩ | ⟨x, rfl, hx⟩)
    · cases x with
      | nil => exact Or.inl (by simpa using hx)
      | cons c x =>
        rw [List.cons_append, List.cons.injEq] at hx
        exact Or.inr (Or.inl ⟨x, by rw [hx.1], hx.2⟩)
    · cases x with
      | nil => exact Or.inl (by simpa [eq_comm] using hx)
      | cons c x =>
        rw [List.cons_append, List.cons.injEq] at hx
        exact Or.inr (Or.inr ⟨x, by rw [hx.1], hx.2⟩)
  · rintro (⟨rfl, rfl⟩ | ⟨x, rfl, rfl⟩ | ⟨x, rfl, rfl⟩)
    · exact Or.inl ⟨[], by simp⟩
    · exact Or.inl ⟨d :: x, by simp⟩
    · exact Or.inr ⟨d :: x, by simp⟩

/-! ### The first and the last separator -/

section Split

variable {α : Type*} {d : α} {a b a' b' : List α}

/-- A separator that is the last one determines both parts. -/
theorem append_cons_inj_of_notMem_right (h : d ∉ b) (h' : d ∉ b') :
    a ++ d :: b = a' ++ d :: b' ↔ a = a' ∧ b = b' := by
  rw [append_cons_eq_append_cons_iff]
  constructor
  · rintro (heq | ⟨x, -, rfl⟩ | ⟨x, -, rfl⟩)
    · exact heq
    · exact absurd (by simp) h
    · exact absurd (by simp) h'
  · exact Or.inl

/-- A separator that is the first one determines both parts. -/
theorem append_cons_inj_of_notMem_left (h : d ∉ a) (h' : d ∉ a') :
    a ++ d :: b = a' ++ d :: b' ↔ a = a' ∧ b = b' := by
  rw [append_cons_eq_append_cons_iff]
  constructor
  · rintro (heq | ⟨x, rfl, -⟩ | ⟨x, rfl, -⟩)
    · exact heq
    · exact absurd (by simp) h'
    · exact absurd (by simp) h
  · exact Or.inl

variable [DecidableEq α]

/-- What stands before and after the first `d`, if there is one. -/
def splitOnce (d : α) : List α → Option (List α × List α)
  | [] => none
  | c :: l => if c = d then some ([], l) else (splitOnce d l).map fun p => (c :: p.1, p.2)

theorem splitOnce_append_cons (h : d ∉ a) (b : List α) :
    splitOnce d (a ++ d :: b) = some (a, b) := by
  induction a with
  | nil => simp [splitOnce]
  | cons c a ih =>
    rw [List.mem_cons, not_or] at h
    have hc : c ≠ d := fun hcd => h.1 hcd.symm
    simp [splitOnce, hc, ih h.2]

theorem splitOnce_eq_some_iff {l : List α} :
    splitOnce d l = some (a, b) ↔ d ∉ a ∧ l = a ++ d :: b := by
  constructor
  · intro h
    induction l generalizing a with
    | nil => exact absurd h (by simp [splitOnce])
    | cons c l ih =>
      unfold splitOnce at h
      split_ifs at h with hc
      · obtain ⟨rfl, rfl⟩ := Prod.mk.inj (Option.some.inj h)
        exact ⟨List.not_mem_nil, by rw [hc, List.nil_append]⟩
      · obtain ⟨⟨a', b'⟩, hsplit, hp⟩ := Option.map_eq_some_iff.mp h
        obtain ⟨rfl, rfl⟩ := Prod.mk.inj hp
        obtain ⟨hd, rfl⟩ := ih hsplit
        refine ⟨?_, rfl⟩
        rw [List.mem_cons, not_or]
        exact ⟨fun hdc => hc hdc.symm, hd⟩
  · rintro ⟨hd, rfl⟩
    exact splitOnce_append_cons hd b

/-- What stands after the last `d`. -/
def lastSegment (d : α) (l : List α) : List α := l.rtakeWhile fun c => c ≠ d

theorem lastSegment_append_cons (a : List α) (h : d ∉ b) : lastSegment d (a ++ d :: b) = b := by
  unfold lastSegment
  induction b using List.reverseRecOn with
  | nil => rw [List.rtakeWhile_concat_neg _ _ d (by simp)]
  | append_singleton b c ih =>
    rw [List.mem_append, List.mem_singleton, not_or] at h
    have hc : c ≠ d := fun hcd => h.2 hcd.symm
    rw [← List.cons_append, ← List.append_assoc,
      List.rtakeWhile_concat_pos _ _ c (by simpa using hc), ih h.1]

end Split

/-! ### Joined strings -/

/-- `a`, the separator, `b`. -/
def joined (sep a b : String) : String := a ++ sep ++ b

/-- `a` and `b` become `a'` and `b'` when the piece `x` moves from the front of `b` to the end of
`a`. -/
def Shifted (sep a b a' b' : String) : Prop :=
  ∃ x, a' = joined sep a x ∧ b = joined sep x b'

variable {sep : String} {d : Char}

theorem toList_joined (hsep : sep.toList = [d]) (a b : String) :
    (joined sep a b).toList = a.toList ++ d :: b.toList := by
  simp [joined, hsep]

/-- **What a joined string determines.** -/
theorem joined_eq_joined_iff (hsep : sep.toList = [d]) {a b a' b' : String} :
    joined sep a b = joined sep a' b' ↔
      (a = a' ∧ b = b') ∨ Shifted sep a b a' b' ∨ Shifted sep a' b' a b := by
  have hpiece : ∀ (l l' : List Char) (s s' : String),
      (∃ x, l = s.toList ++ d :: x ∧ l' = x ++ d :: s'.toList) ↔
        ∃ x, l = (joined sep s x).toList ∧ l' = (joined sep x s').toList := fun l l' s s' => by
    constructor
    · rintro ⟨x, rfl, rfl⟩
      exact ⟨String.ofList x, by simp [toList_joined hsep], by simp [toList_joined hsep]⟩
    · rintro ⟨x, rfl, rfl⟩
      exact ⟨x.toList, toList_joined hsep s x, toList_joined hsep x s'⟩
  rw [← String.toList_inj, toList_joined hsep, toList_joined hsep, append_cons_eq_append_cons_iff,
    hpiece, hpiece]
  simp only [String.toList_inj, Shifted]

/-- A shift makes the first part longer. -/
theorem Shifted.ne_left (hsep : sep.toList = [d]) {a b a' b' : String}
    (h : Shifted sep a b a' b') : a ≠ a' := by
  rintro rfl
  obtain ⟨x, hx, -⟩ := h
  have hlen := congrArg (fun s : String => s.toList.length) hx
  simp [toList_joined hsep] at hlen

theorem joined_right_inj {a a' b : String} (h : joined sep a b = joined sep a' b) : a = a' := by
  have hl := congrArg String.toList h
  simp only [joined, String.toList_append] at hl
  exact String.toList_injective (List.append_cancel_right (List.append_cancel_right hl))

theorem joined_left_inj {a b b' : String} (h : joined sep a b = joined sep a b') : b = b' := by
  have hl := congrArg String.toList h
  simp only [joined, String.toList_append] at hl
  exact String.toList_injective (List.append_cancel_left hl)

theorem joined_assoc (a b c : String) :
    joined sep (joined sep a b) c = joined sep a (joined sep b c) := by
  simp only [joined, String.append_assoc]

/-! ### Terminated words -/

/-- The words, each followed by the terminator `t`. -/
def terminated {α : Type*} (t : α) (words : List (List α)) : List α :=
  words.flatMap fun word => word ++ [t]

/-- **Terminated words are determined** by what they make up, when no word has the terminator. -/
theorem terminated_injective {α : Type*} {t : α} {words words' : List (List α)}
    (h : ∀ word ∈ words, t ∉ word) (h' : ∀ word ∈ words', t ∉ word)
    (heq : terminated t words = terminated t words') : words = words' := by
  have hcons : ∀ (word : List α) (rest : List (List α)),
      terminated t (word :: rest) = word ++ t :: terminated t rest := by
    intro word rest
    simp [terminated]
  induction words generalizing words' with
  | nil =>
    cases words' with
    | nil => rfl
    | cons word' rest' =>
      rw [hcons] at heq
      exact absurd heq.symm (by simp [terminated])
  | cons word rest ih =>
    cases words' with
    | nil =>
      rw [hcons] at heq
      exact absurd heq (by simp [terminated])
    | cons word' rest' =>
      -- the first terminator ends the first word
      rw [hcons, hcons, append_cons_inj_of_notMem_left (h _ List.mem_cons_self)
        (h' _ List.mem_cons_self)] at heq
      have htail := ih (fun w hw => h w (List.mem_cons_of_mem _ hw))
        (fun w hw => h' w (List.mem_cons_of_mem _ hw)) heq.2
      rw [heq.1, htail]

/-! ### UTF-8 -/

/-- The UTF-8 bytes of a string. -/
def utf8 (s : String) : List UInt8 := s.toList.flatMap String.utf8EncodeChar

theorem utf8_injective : Function.Injective utf8 := by
  intro s t h
  have hbytes : ∀ s : String, s.toByteArray = (utf8 s).toByteArray := by
    intro s
    conv_lhs => rw [← String.ofList_toList (s := s)]
    rw [String.toByteArray_ofList]
    rfl
  rw [← String.toByteArray_inj, hbytes, hbytes, h]

/-- No UTF-8 byte is `0xFF`. -/
theorem notMem_utf8 (s : String) : (0xFF : UInt8) ∉ utf8 s := by
  intro h
  obtain ⟨c, -, hc⟩ := List.mem_flatMap.mp h
  unfold String.utf8EncodeChar at hc
  simp only [] at hc
  generalize c.val.toNat = v at hc
  -- one case for each length of an encoding: the first byte is at most `0xF7`
  split_ifs at hc <;>
    simp only [List.mem_cons, List.not_mem_nil, or_false, ← UInt8.toNat_inj,
      UInt8.toNat_ofNat'] at hc <;>
    simp at hc <;> omega

end Mirrorlane
