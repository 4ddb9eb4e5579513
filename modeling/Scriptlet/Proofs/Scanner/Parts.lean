import Scriptlet.Proofs.Scanner.Spelling

/-!
# Texts made of parts

How a text that is put together from parts is read.

**Parts.**  A part *spells* words if it is read as them wherever neither a letter nor a digit
follows.  A *sealed* part is read as its words whatever follows.  *Marks* are sealed and start with
neither a letter nor a digit themselves.

**Joining.**  A sealed part can be followed by any part.  A part that only spells its words must be
followed by marks, and these seal it.

**Results.**
* `Sealed.append`, `Sealed.append_spells`, `Spells.append_marks`: the joints.
* `spells_letters`, `spells_digits`, `sealed_letters`, `marks_of_symbols`: what texts are made of.
-/

namespace Scriptlet

/-- Neither a letter nor a digit comes first. -/
def Delimited (cs : List Char) : Prop :=
  ∀ c ∈ cs.head?, isLetter c = false ∧ isDigit c = false

/-- The part is read as the words, unless a letter or a digit follows it. -/
def Spells (text : String) (ws : List Word) : Prop :=
  ∀ after, Delimited after → wordsOf (text.toList ++ after) = ws ++ wordsOf after

/-- The part is read as the words, whatever follows it. -/
def Sealed (text : String) (ws : List Word) : Prop :=
  ∀ after, wordsOf (text.toList ++ after) = ws ++ wordsOf after

/-- A sealed part that starts with neither a letter nor a digit. -/
def Marks (text : String) (ws : List Word) : Prop :=
  Sealed text ws ∧ ∃ c cs, text.toList = c :: cs ∧ isLetter c = false ∧ isDigit c = false

section Joints

variable {s t : String} {ws vs : List Word}

theorem Sealed.spells (h : Sealed s ws) : Spells s ws :=
  fun after _ => h after

theorem Sealed.append (hs : Sealed s ws) (ht : Sealed t vs) : Sealed (s ++ t) (ws ++ vs) := by
  intro after
  rw [String.toList_append, List.append_assoc, hs, ht, List.append_assoc]

theorem Sealed.append_spells (hs : Sealed s ws) (ht : Spells t vs) : Spells (s ++ t) (ws ++ vs) := by
  intro after hafter
  rw [String.toList_append, List.append_assoc, hs, ht after hafter, List.append_assoc]

theorem Spells.append_marks (hs : Spells s ws) (ht : Marks t vs) :
    Sealed (s ++ t) (ws ++ vs) := by
  intro after
  obtain ⟨hsealed, c, cs, htext, hc⟩ := ht
  have hdelimited : Delimited (t.toList ++ after) := by
    intro d hd
    rw [htext] at hd
    cases hd
    exact hc
  rw [String.toList_append, List.append_assoc, hs _ hdelimited, hsealed, List.append_assoc]

/-- A part that spells words is a text of its own. -/
theorem Spells.wordsOf_toList (h : Spells s ws) : wordsOf s.toList = ws := by
  have hwords := h [] (fun _ hnone => by cases hnone)
  rw [List.append_nil, wordsOf_nil, List.append_nil] at hwords
  exact hwords

end Joints

section Leaves

variable {text : String}

theorem spells_letters (hne : text ≠ "") (h : text.toList.all isLetter = true) :
    Spells text [⟨.ofWord text, text⟩] := by
  intro after hafter
  have hne' : text.toList ≠ [] := fun heq => hne (String.toList_eq_nil_iff.mp heq)
  rw [wordsOf_letters hne' h fun c hc => (hafter c hc).1, String.ofList_toList]
  rfl

/-- Letters with the marks that end them. -/
theorem sealed_letters {word marks : String} {ws : List Word} (hne : word ≠ "")
    (h : word.toList.all isLetter = true) (hmarks : Marks marks ws) (htext : word ++ marks = text) :
    Sealed text (⟨.ofWord word, word⟩ :: ws) := by
  rw [← htext]
  exact (spells_letters hne h).append_marks hmarks

theorem spells_digits (hne : text ≠ "") (h : text.toList.all isDigit = true) :
    Spells text [⟨.int, text⟩] := by
  intro after hafter
  have hne' : text.toList ≠ [] := fun heq => hne (String.toList_eq_nil_iff.mp heq)
  rw [wordsOf_digits hne' h fun c hc => (hafter c hc).2, String.ofList_toList]
  rfl

theorem wordsOf_space {c : Char} (h : isSpace c = true) (cs : List Char) :
    wordsOf (c :: cs) = wordsOf cs := by
  have hgap : [c].all isSpace = true := by simp [h]
  exact wordsOf_gap hgap cs

/-- The words of symbols and white space, if there is nothing else. -/
def marksOf? : List Char → Option (List Word)
  | [] => some []
  | c :: cs =>
      if isSpace c then marksOf? cs
      else
        match symbol? c, marksOf? cs with
        | some kind, some ws => some (⟨kind, String.ofList [c]⟩ :: ws)
        | _, _ => none

theorem wordsOf_marks {cs : List Char} {ws : List Word} (h : marksOf? cs = some ws)
    (after : List Char) : wordsOf (cs ++ after) = ws ++ wordsOf after := by
  fun_induction marksOf? cs generalizing ws with
  | case1 =>
      cases h
      rfl
  | case2 c cs hspace ih =>
      rw [List.cons_append, wordsOf_space hspace, ih h]
  | case3 c cs hspace kind ws' hws hsymbol ih =>
      cases h
      rw [List.cons_append, wordsOf_symbol hsymbol, ih hws, List.cons_append]
  | case4 => cases h

theorem sealed_marks {ws : List Word} (h : marksOf? text.toList = some ws) : Sealed text ws :=
  fun after => wordsOf_marks h after

theorem not_of_symbol? {c : Char} {kind : TokenKind} (h : symbol? c = some kind) :
    isLetter c = false ∧ isDigit c = false := by
  unfold symbol? at h
  split at h
  all_goals first | decide | cases h

/-- Symbols and white space are marks. -/
theorem marks_of_symbols {ws : List Word} (h : marksOf? text.toList = some ws) (hne : text ≠ "") :
    Marks text ws := by
  obtain ⟨c, cs, htext⟩ := exists_cons_of_ne hne
  refine ⟨sealed_marks h, c, cs, htext, ?_⟩
  rw [htext, marksOf?] at h
  split at h
  · next hspace => exact not_of_isSpace hspace
  · split at h
    · next hsymbol _ => exact not_of_symbol? hsymbol
    · cases h

end Leaves

end Scriptlet
