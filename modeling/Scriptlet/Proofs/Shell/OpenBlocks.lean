import Scriptlet.Proofs.Parser.Closing
import Scriptlet.Proofs.Shell.Balance

/-!
# Open blocks

Two parts judge whether a text is complete.  The shell counts brackets, and reads on while some are
open; the parser lets blocks, and nothing else, end with the text.  They agree.

**Closing a text.**  A text that is read without errors can be closed: so many closing braces after it
are taken up, one by each block that the text left open, and it is read as the same program.  Then
the program is derived closed, so all brackets match, and what the text left open is known.

**Result.**  `openDepth_eq_open_blocks`: the depth of a text that is read without errors is the number
of blocks in it that its end closes.
-/

namespace Scriptlet

namespace Parser

variable {source : String} {p : Program}

/-- The words of a text that is read without errors are legal. -/
theorem legal_of_parse (h : parse source = .ok ⟨p, []⟩) :
    ∀ w ∈ wordsOf source.toList, w.kind ≠ .illegal := by
  obtain ⟨-, hder⟩ := yields_program.of_parse h
  obtain ⟨used, hused, hlegal⟩ := hder.uses
  rw [List.append_nil] at hused
  intro w hw
  have hmem : w ∈ (Scanner.ofString source).words := hw
  rw [hused] at hmem
  exact hlegal w hmem

theorem words_closed (h : parse source = .ok ⟨p, []⟩) (k : Nat) :
    (Scanner.ofString (source ++ String.ofList (closing k))).words =
      wordsOf source.toList ++ braces k := by
  have htext : (source ++ String.ofList (closing k)).toList = source.toList ++ closing k := by
    rw [String.toList_append, String.toList_ofList]
  rw [← wordsOf_append_closing (legal_of_parse h), ← htext]
  rfl

theorem parse_of_reads {ws : List Word}
    (h : Reads program (Scanner.ofString source).words p ws) : parse source = .ok ⟨p, []⟩ := by
  obtain ⟨s, -, hrun⟩ := h _ [] rfl
  rw [parse, State.ofString_eq_reading, hrun]
  rfl

/-- If the statements of a text take up so many braces after it and leave the others, then with those
they are closed. -/
theorem closed_of_reads (h : parse source = .ok ⟨p, []⟩) {k : Nat}
    (hblock : ∀ m, Reads (statementsUntil expression (· = .rbrace))
      (wordsOf source.toList ++ braces m) p.statements (braces (m - k))) :
    Closed (.statements p.statements) (wordsOf source.toList ++ braces k) := by
  -- One brace more is left over, so no block of the derivation was ended by the end of the words.
  have hwords := words_closed h (k + 1)
  have hreads := hblock (k + 1)
  rw [Nat.add_sub_cancel_left, ← hwords] at hreads
  obtain ⟨hder, -⟩ :=
    (yields_statementsUntil (finds_expressionWithin maxNesting) _).of_reads hreads
  obtain ⟨used, hused, hclosed⟩ := exists_closed_of_derives hder (List.cons_ne_nil _ _)
  rw [hwords, braces_add, ← List.append_assoc] at hused
  rw [List.append_cancel_right hused]
  exact hclosed

/-- Closing braces can be added up to a number that closes the program. -/
theorem exists_closed_of_parse (h : parse source = .ok ⟨p, []⟩) :
    ∃ k, Closed (.statements p.statements) (wordsOf source.toList ++ braces k) ∧
      ∀ j ≤ k, parse (source ++ String.ofList (closing j)) = .ok ⟨p, []⟩ := by
  obtain ⟨-, k, hblock, hprogram⟩ := yields_program_braced.of_parse h
  refine ⟨k, closed_of_reads h hblock, ?_⟩
  intro j hj
  apply parse_of_reads
  rw [words_closed h]
  exact hprogram j hj

/-- What is open in words that braces close. -/
theorem unmatched_of_closed {φ : Phrase} {ws : List Word} {k : Nat} (h : Closed φ (ws ++ braces k)) :
    unmatched [] ws = some (List.replicate k .lbrace) := by
  have hall := h.unmatched_eq []
  rw [unmatched_append, Option.bind_eq_some_iff] at hall
  obtain ⟨left, hleft, hbraces⟩ := hall
  rw [hleft, eq_of_unmatched_braces hbraces, List.append_nil]

theorem balance_of_closed {φ : Phrase} {ws : List Word} {k : Nat} (h : Closed φ (ws ++ braces k)) :
    balance ws = k := by
  have hlength := balance_of_unmatched (unmatched_of_closed h)
  rw [List.length_replicate, List.length_nil] at hlength
  omega

theorem openDepth_closed (h : parse source = .ok ⟨p, []⟩) (k : Nat) :
    openDepth (source ++ String.ofList (closing k)) = openDepth source - k := by
  have hwords : wordsOf (source ++ String.ofList (closing k)).toList =
      wordsOf source.toList ++ braces k := words_closed h k
  rw [openDepth_eq_balance, openDepth_eq_balance, hwords, balance_append, balance_braces]
  omega

/-- The statements of a text of depth zero leave all braces after it. -/
theorem reads_braced_of_openDepth (h : parse source = .ok ⟨p, []⟩) (hdepth : openDepth source = 0)
    (m : Nat) :
    Reads (statementsUntil expression (· = .rbrace)) (wordsOf source.toList ++ braces m) p.statements
      (braces m) := by
  obtain ⟨-, k, hblock, -⟩ := yields_program_braced.of_parse h
  have hbalance := balance_of_closed (closed_of_reads h hblock)
  rw [← openDepth_eq_balance, hdepth] at hbalance
  obtain rfl : k = 0 := by omega
  exact hblock m

/-- The depth of a text that is read without errors is a number of blocks.  So many closing braces
after it, and no more, leave the program as it is; with all of them the depth is zero.  The brackets
left open are the braces of these blocks: every other bracket is matched by its own, and exactly so
many braces close every block, whatever comes after.  In particular, if the shell takes a text of
depth zero or less and what it runs is read without errors, then every block of it is closed by a
brace of its own. -/
theorem openDepth_eq_open_blocks (h : parse source = .ok ⟨p, []⟩) :
    ∃ k : Nat, openDepth source = k ∧
      parse (source ++ String.ofList (closing k)) = .ok ⟨p, []⟩ ∧
      openDepth (source ++ String.ofList (closing k)) = 0 ∧
      (∀ j, parse (source ++ String.ofList (closing j)) = .ok ⟨p, []⟩ ↔ j ≤ k) ∧
      unmatched [] (wordsOf source.toList) = some (List.replicate k .lbrace) ∧
      (∀ j, Closed (.statements p.statements) (wordsOf source.toList ++ braces j) ↔ j = k) ∧
      ∀ text, visible text = source → openDepth text ≤ 0 →
        Closed (.statements p.statements) (wordsOf source.toList) := by
  obtain ⟨k, hclosed, hparse⟩ := exists_closed_of_parse h
  have hdepth : openDepth source = k := by
    rw [openDepth_eq_balance]
    exact balance_of_closed hclosed
  refine ⟨k, hdepth, hparse k (Nat.le_refl k), ?_, ?_, unmatched_of_closed hclosed, ?_, ?_⟩
  · rw [openDepth_closed h, hdepth]
    omega
  · intro j
    constructor
    · intro hj
      obtain ⟨k', hclosed', -⟩ := exists_closed_of_parse hj
      have hleft := balance_of_closed hclosed'
      rw [← openDepth_eq_balance, openDepth_closed h, hdepth] at hleft
      omega
    · exact hparse j
  · intro j
    constructor
    · intro hj
      have hbalance := balance_of_closed hj
      rw [← openDepth_eq_balance, hdepth] at hbalance
      omega
    · rintro rfl
      exact hclosed
  · intro text htext hcomplete
    rw [← openDepth_visible, htext, hdepth] at hcomplete
    have hk : k = 0 := by omega
    rw [hk] at hclosed
    rw [← List.append_nil (wordsOf source.toList)]
    exact hclosed

/-- A function, a conditional in it and the block of its alternative are left open, after a hash literal
that is closed. -/
theorem openDepth_eq_open_blocks_nested :
    let source := "let f = fn(a) \x7b if (a) \x7b [a] \x7d else \x7b return \x7b1: (a)\x7d[f(-a)]"
    let p : Program :=
      ⟨[.bind "f" (.function ["a"] [.expr (.conditional (.ident "a") [.expr (.array [.ident "a"])]
        (some [.ret (.index (.hash [(.integer 1, .ident "a")])
          (.call (.ident "f") [.unary "-" (.ident "a")]))]))])]⟩
    parse source = .ok ⟨p, []⟩ ∧ openDepth source = 2 ∧
      parse (source ++ String.ofList (closing 2)) = .ok ⟨p, []⟩ := by
  intro source p
  have h : parse source = .ok ⟨p, []⟩ := eq_ok_of_toOption (by decide +kernel)
  have htwo : openDepth source = 2 := by decide +kernel
  obtain ⟨k, hdepth, hparse, -⟩ := openDepth_eq_open_blocks h
  have hk : k = 2 := by omega
  rw [hk] at hparse
  exact ⟨h, htwo, hparse⟩

end Parser

end Scriptlet
