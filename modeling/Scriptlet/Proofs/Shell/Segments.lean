import Scriptlet.Shell.Loop

/-!
# How the loop cuts what is typed

The lines typed at the prompt are cut into segments.  Each is submitted as one text, or lost to an
interrupt or to the end of the input.

**Greedy cutting.**  A segment is submitted with the first line that makes it complete, and one that
is lost was never complete (`Segment.Greedy`).  What counts is always the text of the whole segment so
far, not a sum over its lines.

**Shells.**  A submitted segment is answered by the shell, and its answer leaves the shell for what comes
next.  An interrupt leaves the shell as it was.

**Method.**  The buffer of the loop is the open lines and an empty line after them.  The induction is on the
events, for any open lines of which no beginning is complete.

**Result.**  `loop_segments`: every run of the loop is the answers to the segments of the events up to the
one that ended it.
-/

namespace Scriptlet

namespace Text

variable {separator : String}

theorem joined_cons (text : String) {texts : List String} (h : texts ≠ []) :
    joined separator (text :: texts) = text ++ separator ++ joined separator texts := by
  cases texts with
  | nil => exact absurd rfl h
  | cons second texts =>
      rw [joined]
      exact nofun

theorem joined_concat (texts : List String) (text : String) :
    joined separator (texts ++ [text]) = joined separator (texts ++ [""]) ++ text := by
  induction texts with
  | nil => rw [List.nil_append, List.nil_append, joined, joined, String.empty_append]
  | cons first texts ih =>
      rw [List.cons_append, List.cons_append, joined_cons _ (List.concat_ne_nil _ _),
        joined_cons _ (List.concat_ne_nil _ _), ih, ← String.append_assoc]

/-- An empty text after others adds a separator. -/
theorem joined_concat_empty {texts : List String} (h : texts ≠ []) :
    joined separator (texts ++ [""]) = joined separator texts ++ separator := by
  induction texts with
  | nil => exact absurd rfl h
  | cons first texts ih =>
      rw [List.cons_append, joined_cons _ (List.concat_ne_nil _ _)]
      by_cases hrest : texts = []
      · rw [hrest, List.nil_append, joined, joined, String.append_empty]
      · rw [ih hrest, joined_cons _ hrest, ← String.append_assoc]

end Text

namespace Shell

/-- What comes of the lines of a segment. -/
inductive Fate where
  | submitted
  | interrupted
  | ended
  deriving DecidableEq, Repr

/-- Lines typed one after the other, and what came of them. -/
structure Segment where
  lines : List String
  fate : Fate
  deriving DecidableEq, Repr

namespace Segment

/-- The text of the lines. -/
def text (seg : Segment) : String :=
  Text.joined "\n" seg.lines

/-- The buffer after lines that are not complete: an empty line is open after them. -/
def openText (lines : List String) : String :=
  Text.joined "\n" (lines ++ [""])

/-- The events that make up the segment.  The end of the input is not one of them. -/
def events (seg : Segment) : List Event :=
  seg.lines.map .typed ++ if seg.fate = .interrupted then [.interrupt] else []

theorem events_submitted (lines : List String) : events ⟨lines, .submitted⟩ = lines.map .typed :=
  List.append_nil _

theorem events_interrupted (lines : List String) :
    events ⟨lines, .interrupted⟩ = lines.map .typed ++ [.interrupt] := rfl

theorem events_ended (lines : List String) : events ⟨lines, .ended⟩ = lines.map .typed :=
  List.append_nil _

/-- A beginning of the lines is complete exactly if it is all of them and they were submitted. -/
def Greedy (seg : Segment) : Prop :=
  (seg.fate = .submitted → seg.lines ≠ []) ∧
    ∀ first later, seg.lines = first ++ later → first ≠ [] →
      (isComplete (Text.joined "\n" first) = true ↔ later = [] ∧ seg.fate = .submitted)

/-- How the prompt was answered. -/
def answer (seg : Segment) : Answer :=
  match seg.fate with
  | .submitted => .submitted seg.text
  | .interrupted => .interrupted (openText seg.lines)
  | .ended => .ended (openText seg.lines)

/-- What a shell makes of the segment. -/
def response [Host] (s : Shell) (seg : Segment) : Response :=
  match seg.fate with
  | .submitted => s.accept seg.text
  | .interrupted => ⟨s, .out "KeyboardInterrupt\n", none⟩
  | .ended => ⟨s, .out "\n", none⟩

theorem response_submitted [Host] (s : Shell) (lines : List String) :
    response s ⟨lines, .submitted⟩ = s.accept (Text.joined "\n" lines) := rfl

/-- The turn of the loop that a segment is. -/
def turn [Host] (s : Shell) (seg : Segment) : Turn :=
  ⟨s.settings.promptText, seg.answer, (seg.response s).output⟩

end Segment

/-- The turns of segments, each answered by the shell that the one before it left. -/
def turns [Host] (s : Shell) : List Segment → List Turn
  | [] => []
  | seg :: segments => seg.turn s :: turns (seg.response s).shell segments

/-- Segments after which the loop goes on, from one shell to another. -/
inductive Proceeds [Host] : Shell → List Segment → Shell → Prop where
  | nil (s : Shell) : Proceeds s [] s
  | cons {s last : Shell} {seg : Segment} {segments : List Segment} (hfate : seg.fate ≠ .ended)
      (hfailure : (seg.response s).failure = none)
      (hlater : Proceeds (seg.response s).shell segments last) : Proceeds s (seg :: segments) last

/-- The events are cut into segments, the last of which ends the loop, and what is never looked at. -/
structure Cuts [Host] (s : Shell) (events : List Event) (segments : List Segment) (last : Segment)
    (rest : List Event) (final : Shell) : Prop where
  /-- No event is left out or used twice. -/
  events_eq : events = (segments ++ [last]).flatMap Segment.events ++ rest
  greedy : ∀ seg ∈ segments ++ [last], seg.Greedy
  /-- The loop goes on after all segments but the last. -/
  proceeds : s.Proceeds segments final
  /-- The last segment was ended, by the end of the input, or was submitted and failed. -/
  ends : (last.fate = .ended ∧ ∀ event ∈ rest.head?, event = .endOfInput) ∨
    (last.fate = .submitted ∧ (last.response final).failure ≠ none)

/-- No beginning of the lines is complete. -/
def Open (lines : List String) : Prop :=
  ∀ first later, lines = first ++ later → first ≠ [] → isComplete (Text.joined "\n" first) = false

theorem open_nil : Open [] := by
  intro first later h hne
  exact absurd (List.append_eq_nil_iff.mp h.symm).1 hne

/-- A beginning of several lines and one more is all of them, or a beginning of the several. -/
theorem eq_or_of_concat_eq {lines first later : List String} {line : String}
    (h : lines ++ [line] = first ++ later) :
    later = [] ∧ first = lines ++ [line] ∨ later ≠ [] ∧ ∃ later', lines = first ++ later' := by
  rcases List.eq_nil_or_concat later with rfl | ⟨later, final, rfl⟩
  · rw [List.append_nil] at h
    exact .inl ⟨rfl, h.symm⟩
  · rw [List.concat_eq_append, ← List.append_assoc] at h
    exact .inr ⟨List.concat_eq_append ▸ List.concat_ne_nil _ _, later, (List.append_inj' h rfl).1⟩

theorem Open.concat {lines : List String} {line : String} (h : Open lines)
    (hline : isComplete (Text.joined "\n" (lines ++ [line])) = false) : Open (lines ++ [line]) := by
  intro first later hsplit hne
  obtain ⟨-, rfl⟩ | ⟨-, later', hlines⟩ := eq_or_of_concat_eq hsplit
  · exact hline
  · exact h first later' hlines hne

/-- Open lines that are lost are a greedy segment. -/
theorem Open.greedy {lines : List String} (h : Open lines) (fate : Fate)
    (hfate : fate ≠ .submitted) : Segment.Greedy ⟨lines, fate⟩ := by
  refine ⟨fun hsubmitted => absurd hsubmitted hfate, fun first later hlines hne => ?_⟩
  exact iff_of_false (by rw [h first later hlines hne]; exact Bool.false_ne_true)
    fun hall => hfate hall.2

/-- Open lines and one that makes them complete are a greedy segment. -/
theorem Open.greedy_submitted {lines : List String} {line : String} (h : Open lines)
    (hline : isComplete (Text.joined "\n" (lines ++ [line])) = true) :
    Segment.Greedy ⟨lines ++ [line], .submitted⟩ := by
  refine ⟨fun _ => List.concat_ne_nil _ _, fun first later hlines hne => ?_⟩
  obtain ⟨hlater, rfl⟩ | ⟨hlater, later', hfirst⟩ := eq_or_of_concat_eq hlines
  · exact iff_of_true hline ⟨hlater, rfl⟩
  · exact iff_of_false (by rw [h first later' hfirst hne]; exact Bool.false_ne_true)
      fun hall => hlater hall.1

/-- A segment goes before the cutting of later events. -/
theorem Cuts.cons [Host] {s final : Shell} {events : List Event} {segments : List Segment}
    {seg last : Segment} {rest : List Event} (hgreedy : seg.Greedy) (hfate : seg.fate ≠ .ended)
    (hfailure : (seg.response s).failure = none)
    (h : Cuts (seg.response s).shell events segments last rest final) :
    Cuts s (seg.events ++ events) (seg :: segments) last rest final where
  events_eq := by
    rw [h.events_eq, List.cons_append, List.flatMap_cons, List.append_assoc]
  greedy := List.forall_mem_cons.mpr ⟨hgreedy, h.greedy⟩
  proceeds := .cons hfate hfailure h.proceeds
  ends := h.ends

/-- A segment that ends the loop is the last one. -/
theorem Cuts.last [Host] {s : Shell} {last : Segment} (rest : List Event) (hgreedy : last.Greedy)
    (hends : (last.fate = .ended ∧ ∀ event ∈ rest.head?, event = .endOfInput) ∨
      (last.fate = .submitted ∧ (last.response s).failure ≠ none)) :
    Cuts s (last.events ++ rest) [] last rest s where
  events_eq := by rw [List.nil_append, List.flatMap_singleton]
  greedy := List.forall_mem_singleton.mpr hgreedy
  proceeds := .nil s
  ends := hends

section Submissions

variable [Host] {s : Shell} {buffer line : String} (hcomplete : isComplete (buffer ++ line) = true)
  (events : List Event)
include hcomplete

theorem loop_of_failure {failure : Failure}
    (hfailure : (s.accept (buffer ++ line)).failure = some failure) :
    s.loop buffer (.typed line :: events) =
      ([⟨s.settings.promptText, .submitted (buffer ++ line), (s.accept (buffer ++ line)).output⟩],
        some failure) := by
  simp only [loop, if_pos hcomplete, hfailure]

theorem loop_of_success (hfailure : (s.accept (buffer ++ line)).failure = none) :
    s.loop buffer (.typed line :: events) =
      (⟨s.settings.promptText, .submitted (buffer ++ line), (s.accept (buffer ++ line)).output⟩ ::
          ((s.accept (buffer ++ line)).shell.loop "" events).1,
        ((s.accept (buffer ++ line)).shell.loop "" events).2) := by
  simp only [loop, if_pos hcomplete, hfailure]

end Submissions

/-- The loop from a buffer with open lines, by induction on the events. -/
theorem loop_cuts [Host] (events : List Event) :
    ∀ (s : Shell) (lines : List String), Open lines →
      ∃ segments last rest final,
        Cuts s (lines.map .typed ++ events) segments last rest final ∧
          s.loop (Segment.openText lines) events =
            (s.turns (segments ++ [last]), (last.response final).failure) := by
  induction events with
  | nil =>
      intro s lines hlines
      have hcut := Cuts.last (s := s) [] (hlines.greedy .ended nofun)
        (.inl ⟨rfl, fun _ hevent => by cases hevent⟩)
      rw [Segment.events_ended] at hcut
      exact ⟨_, _, _, _, hcut, rfl⟩
  | cons event events ih =>
      intro s lines hlines
      cases event with
      | endOfInput =>
          have hcut := Cuts.last (s := s) (.endOfInput :: events) (hlines.greedy .ended nofun)
            (.inl ⟨rfl, fun _ hevent => (Option.some.inj hevent).symm⟩)
          rw [Segment.events_ended] at hcut
          exact ⟨_, _, _, _, hcut, rfl⟩
      | interrupt =>
          obtain ⟨segments, last, rest, final, hcut, hloop⟩ := ih s [] open_nil
          refine ⟨⟨lines, .interrupted⟩ :: segments, last, rest, final, ?_, ?_⟩
          · have hall := Cuts.cons (hlines.greedy .interrupted nofun) nofun rfl hcut
            rw [Segment.events_interrupted, List.append_assoc] at hall
            exact hall
          · change s.loop "" events = _ at hloop
            rw [loop, hloop]
            rfl
      | typed line =>
          have hevents : lines.map Event.typed ++ .typed line :: events =
              (lines ++ [line]).map .typed ++ events := by
            rw [List.map_append, List.append_assoc]
            rfl
          have hbuffer : Segment.openText lines ++ line = Text.joined "\n" (lines ++ [line]) :=
            (Text.joined_concat lines line).symm
          rw [hevents]
          by_cases hcomplete : isComplete (Text.joined "\n" (lines ++ [line])) = true
          · have hgreedy := hlines.greedy_submitted hcomplete
            have hresponse := Segment.response_submitted s (lines ++ [line])
            rw [← hbuffer] at hcomplete hresponse
            cases hfailure : (s.accept (Segment.openText lines ++ line)).failure with
            | some failure =>
                have hfails : (Segment.response s ⟨lines ++ [line], .submitted⟩).failure ≠ none := by
                  rw [hresponse, hfailure]
                  exact Option.some_ne_none _
                have hcut := Cuts.last events hgreedy (.inr ⟨rfl, hfails⟩)
                rw [Segment.events_submitted] at hcut
                refine ⟨_, _, _, _, hcut, ?_⟩
                rw [loop_of_failure hcomplete events hfailure, hresponse, hfailure, List.nil_append,
                  turns, turns, Segment.turn, hresponse, Segment.answer, Segment.text, hbuffer]
            | none =>
                obtain ⟨segments, last, rest, final, hcut, hloop⟩ :=
                  ih (s.accept (Segment.openText lines ++ line)).shell [] open_nil
                rw [← hresponse] at hcut
                have hall := Cuts.cons hgreedy nofun (hresponse ▸ hfailure) hcut
                rw [Segment.events_submitted] at hall
                refine ⟨_, last, rest, final, hall, ?_⟩
                change Shell.loop _ "" events = _ at hloop
                rw [loop_of_success hcomplete events hfailure, hloop, List.cons_append, turns,
                  Segment.turn, hresponse, Segment.answer, Segment.text, hbuffer]
          · rw [Bool.not_eq_true] at hcomplete
            obtain ⟨segments, last, rest, final, hcut, hloop⟩ :=
              ih s (lines ++ [line]) (hlines.concat hcomplete)
            refine ⟨segments, last, rest, final, hcut, ?_⟩
            rw [Segment.openText, Text.joined_concat_empty (List.concat_ne_nil _ _), ← hbuffer] at hloop
            rw [← hbuffer] at hcomplete
            rw [loop, hcomplete, if_neg Bool.false_ne_true]
            exact hloop

/-- Whatever is typed, interrupted and ended, the events up to the one that ends the loop are cut into
greedy segments, with no line left out or used twice, and the turns of the loop are the answers to these
segments in their order.  Each submitted segment is answered by the shell that the one before it left,
and an interrupt leaves the shell as it was. -/
theorem loop_segments [Host] (s : Shell) (events : List Event) :
    ∃ segments last rest final, Cuts s events segments last rest final ∧
      s.loop "" events = (s.turns (segments ++ [last]), (last.response final).failure) :=
  loop_cuts events s [] open_nil

/-- A string takes up the bracket that would close the first line, and is lost with it. -/
example :
    (new .unset).loop "" [.typed "( \"", .typed ")", .interrupt, .typed "[", .typed "1 + 1]"] =
      ([⟨">> ", .interrupted "( \"\n)\n", .out "KeyboardInterrupt\n"⟩,
          ⟨">> ", .submitted "[\n1 + 1]", .out "[2]\n"⟩, ⟨">> ", .ended "", .out "\n"⟩],
        none) := by
  decide +kernel

end Shell

end Scriptlet
