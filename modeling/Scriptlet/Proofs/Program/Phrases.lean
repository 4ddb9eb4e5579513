import Scriptlet.Proofs.Program.WellFormed

/-!
# The phrases of a program

All that a program consists of, the bodies of functions included.

**Results.**
* `Program.mentions`: whether a name occurs anywhere in a program.
* `Program.wellFormed_of_mem_phrases`: what a well-formed program consists of is well-formed.
-/

namespace Scriptlet

mutual

/-- The phrases that an expression consists of, at any depth, itself included. -/
def Expr.phrases : Expr → List Node
  | .unary op right => .expression (.unary op right) :: right.phrases
  | .binary left op right =>
      .expression (.binary left op right) :: (left.phrases ++ right.phrases)
  | .conditional condition consequence alternative =>
      .expression (.conditional condition consequence alternative) ::
        (condition.phrases ++ Stmt.phrasesAmong consequence ++
          (match alternative with
            | none => []
            | some block => Stmt.phrasesAmong block))
  | .function parameters body =>
      .expression (.function parameters body) :: Stmt.phrasesAmong body
  | .call callee arguments =>
      .expression (.call callee arguments) :: (callee.phrases ++ Expr.phrasesAmong arguments)
  | .array elements => .expression (.array elements) :: Expr.phrasesAmong elements
  | .index left subscript =>
      .expression (.index left subscript) :: (left.phrases ++ subscript.phrases)
  | .hash pairs => .expression (.hash pairs) :: Expr.phrasesInPairs pairs
  | e => [.expression e]

/-- The phrases that a statement consists of, at any depth, itself included. -/
def Stmt.phrases : Stmt → List Node
  | .bind name value => .statement (.bind name value) :: value.phrases
  | .ret value => .statement (.ret value) :: value.phrases
  | .expr expression => .statement (.expr expression) :: expression.phrases
  | .block body => .statement (.block body) :: Stmt.phrasesAmong body

/-- The phrases that a block consists of, at any depth. -/
def Stmt.phrasesAmong : List Stmt → List Node
  | [] => []
  | s :: rest => s.phrases ++ Stmt.phrasesAmong rest

/-- The phrases that several expressions consist of, at any depth. -/
def Expr.phrasesAmong : List Expr → List Node
  | [] => []
  | e :: rest => e.phrases ++ Expr.phrasesAmong rest

/-- The phrases that the keys and values of a hash literal consist of, at any depth. -/
def Expr.phrasesInPairs : List (Expr × Expr) → List Node
  | [] => []
  | (key, value) :: rest => key.phrases ++ (value.phrases ++ Expr.phrasesInPairs rest)

end

/-- The phrases that a program consists of, at any depth. -/
def Program.phrases (p : Program) : List Node :=
  Stmt.phrasesAmong p.statements

/-- The phrases that any phrase consists of, at any depth. -/
def Node.phrases : Node → List Node
  | program p => p.phrases
  | statement s => s.phrases
  | expression e => e.phrases

theorem Expr.self_mem_phrases (e : Expr) : .expression e ∈ e.phrases := by
  cases e with
  | conditional condition consequence alternative => cases alternative <;> simp [phrases]
  | _ => simp [phrases]

theorem Stmt.self_mem_phrases (s : Stmt) : .statement s ∈ s.phrases := by
  cases s <;> simp [phrases]

section Mentions

/-- Whether a phrase itself has a name: as an identifier, as what a `let` binds or as a parameter. -/
def Node.names (name : String) : Node → Bool
  | expression (.ident text) => text = name
  | expression (.function parameters _) => name ∈ parameters
  | statement (.bind text _) => text = name
  | _ => false

/-- Whether a name occurs in a program. -/
def Program.mentions (p : Program) (name : String) : Bool :=
  p.phrases.any fun n => n.names name

theorem Program.not_names_of_mem_phrases {p : Program} {name : String}
    (hp : p.mentions name = false) {n : Node} (hn : n ∈ p.phrases) : n.names name = false := by
  rw [mentions, List.any_eq_false] at hp
  exact Bool.eq_false_iff.mpr (hp n hn)

end Mentions

section WellFormed

/-- Whether any phrase can be written down. -/
def Node.wellFormed : Node → Bool
  | program p => p.wellFormed
  | statement s => s.wellFormed
  | expression e => e.wellFormed

mutual

theorem Expr.wellFormed_of_mem_phrases :
    (e : Expr) → e.wellFormed = true → ∀ n ∈ e.phrases, n.wellFormed = true
  | .ident _, he => List.forall_mem_singleton.mpr he
  | .integer _, he => List.forall_mem_singleton.mpr he
  | .boolean _, he => List.forall_mem_singleton.mpr he
  | .string _, he => List.forall_mem_singleton.mpr he
  | .unary _ right, he => by
      refine List.forall_mem_cons.mpr ⟨he, ?_⟩
      rw [Expr.wellFormed, Bool.and_eq_true] at he
      exact right.wellFormed_of_mem_phrases he.2
  | .binary left _ right, he => by
      refine List.forall_mem_cons.mpr ⟨he, ?_⟩
      simp only [Expr.wellFormed, Bool.and_eq_true] at he
      exact List.forall_mem_append.mpr
        ⟨left.wellFormed_of_mem_phrases he.1.2, right.wellFormed_of_mem_phrases he.2⟩
  | .conditional condition consequence none, he => by
      refine List.forall_mem_cons.mpr ⟨he, ?_⟩
      simp only [Expr.wellFormed, Bool.and_eq_true] at he
      simp only [List.append_nil, List.forall_mem_append]
      exact ⟨condition.wellFormed_of_mem_phrases he.1.1,
        Stmt.wellFormed_of_mem_phrasesAmong consequence he.1.2⟩
  | .conditional condition consequence (some block), he => by
      refine List.forall_mem_cons.mpr ⟨he, ?_⟩
      simp only [Expr.wellFormed, Bool.and_eq_true] at he
      simp only [List.forall_mem_append]
      exact ⟨⟨condition.wellFormed_of_mem_phrases he.1.1,
        Stmt.wellFormed_of_mem_phrasesAmong consequence he.1.2⟩,
        Stmt.wellFormed_of_mem_phrasesAmong block he.2⟩
  | .function _ body, he => by
      refine List.forall_mem_cons.mpr ⟨he, ?_⟩
      rw [Expr.wellFormed, Bool.and_eq_true] at he
      exact Stmt.wellFormed_of_mem_phrasesAmong body he.2
  | .call callee arguments, he => by
      refine List.forall_mem_cons.mpr ⟨he, ?_⟩
      rw [Expr.wellFormed, Bool.and_eq_true] at he
      exact List.forall_mem_append.mpr ⟨callee.wellFormed_of_mem_phrases he.1,
        Expr.wellFormed_of_mem_phrasesAmong arguments he.2⟩
  | .array elements, he =>
      List.forall_mem_cons.mpr ⟨he, Expr.wellFormed_of_mem_phrasesAmong elements he⟩
  | .index left subscript, he => by
      refine List.forall_mem_cons.mpr ⟨he, ?_⟩
      rw [Expr.wellFormed, Bool.and_eq_true] at he
      exact List.forall_mem_append.mpr
        ⟨left.wellFormed_of_mem_phrases he.1, subscript.wellFormed_of_mem_phrases he.2⟩
  | .hash pairs, he => by
      refine List.forall_mem_cons.mpr ⟨he, ?_⟩
      rw [Expr.wellFormed, Bool.and_eq_true] at he
      exact Expr.wellFormed_of_mem_phrasesInPairs pairs he.2

theorem Stmt.wellFormed_of_mem_phrases :
    (s : Stmt) → s.wellFormed = true → ∀ n ∈ s.phrases, n.wellFormed = true
  | .bind _ value, hs => by
      refine List.forall_mem_cons.mpr ⟨hs, ?_⟩
      rw [Stmt.wellFormed, Bool.and_eq_true] at hs
      exact value.wellFormed_of_mem_phrases hs.2
  | .ret value, hs => List.forall_mem_cons.mpr ⟨hs, value.wellFormed_of_mem_phrases hs⟩
  | .expr expression, hs => List.forall_mem_cons.mpr ⟨hs, expression.wellFormed_of_mem_phrases hs⟩

theorem Stmt.wellFormed_of_mem_phrasesAmong :
    (body : List Stmt) → Stmt.wellFormedAll body = true →
      ∀ n ∈ Stmt.phrasesAmong body, n.wellFormed = true
  | [], _ => by simp [Stmt.phrasesAmong]
  | s :: rest, hs => by
      rw [Stmt.wellFormedAll, Bool.and_eq_true] at hs
      exact List.forall_mem_append.mpr
        ⟨s.wellFormed_of_mem_phrases hs.1, Stmt.wellFormed_of_mem_phrasesAmong rest hs.2⟩

theorem Expr.wellFormed_of_mem_phrasesAmong :
    (es : List Expr) → Expr.wellFormedAll es = true →
      ∀ n ∈ Expr.phrasesAmong es, n.wellFormed = true
  | [], _ => by simp [Expr.phrasesAmong]
  | e :: rest, he => by
      rw [Expr.wellFormedAll, Bool.and_eq_true] at he
      exact List.forall_mem_append.mpr
        ⟨e.wellFormed_of_mem_phrases he.1, Expr.wellFormed_of_mem_phrasesAmong rest he.2⟩

theorem Expr.wellFormed_of_mem_phrasesInPairs :
    (pairs : List (Expr × Expr)) → Expr.wellFormedPairs pairs = true →
      ∀ n ∈ Expr.phrasesInPairs pairs, n.wellFormed = true
  | [], _ => by simp [Expr.phrasesInPairs]
  | (key, value) :: rest, he => by
      simp only [Expr.wellFormedPairs, Bool.and_eq_true] at he
      simp only [Expr.phrasesInPairs, List.forall_mem_append]
      exact ⟨key.wellFormed_of_mem_phrases he.1.1, value.wellFormed_of_mem_phrases he.1.2,
        Expr.wellFormed_of_mem_phrasesInPairs rest he.2⟩

end

theorem Program.wellFormed_of_mem_phrases {p : Program} (hp : p.wellFormed = true) {n : Node}
    (hn : n ∈ p.phrases) : n.wellFormed = true :=
  Stmt.wellFormed_of_mem_phrasesAmong p.statements hp n hn

end WellFormed

end Scriptlet
