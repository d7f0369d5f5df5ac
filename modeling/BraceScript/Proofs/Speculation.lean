import BraceScript.Proofs.Rules
import BraceScript.Proofs.Verdicts

/-! # Speculation — looking ahead leaves no trace

    To find out whether an expression is boolean, it is read as an arithmetic one, which may fail
    anywhere and has to be undone in any case.  What comes of it is then read a second time.

    * `Node.isTest`: trees of boolean expressions can be told from arithmetic ones;
    * `sorted`: boolean parsers build the former, arithmetic parsers the latter;
    * `free_startsBoolean_eq`: the attempt succeeds in every state, and leaves it as it was;
    * `speculation_coherent`: an expression is what the attempt has read, or else what the boolean
      parser makes of it. -/

namespace BraceScript

/-- Whether a tree is that of a boolean expression. -/
def Node.isTest : Node → Bool
  | .boolean _ | .comparison _ _ _ | .truth _ | .logical _ _ _ | .negation _ _ => true
  | _ => false

namespace Parser

variable {α : Type}

/-! ## Two sorts of trees -/

/-- Whatever a parser makes, in any state, has a property. -/
def Builds (P : Node → Prop) (p : Parser Node) : Prop := ∀ s t s', p s = .ok t s' → P t

namespace Builds

variable {P Q : Node → Prop}

theorem pure {t : Node} (h : P t) : Builds P (Pure.pure t) := by
  intro s t' s' hrun
  cases hrun
  exact h

theorem bind {p : Parser Node} {f : Node → Parser Node} (hp : Builds P p)
    (hf : ∀ t, P t → Builds Q (f t)) : Builds Q (p >>= f) := by
  intro s t s' hrun
  obtain ⟨left, mid, hleft, hrest⟩ := bind_ok hrun
  exact hf left (hp s left mid hleft) mid t s' hrest

/-- What comes first does not matter. -/
theorem behind {p : Parser α} {f : α → Parser Node} (hf : ∀ a, Builds P (f a)) :
    Builds P (p >>= f) := by
  intro s t s' hrun
  obtain ⟨a, mid, -, hrest⟩ := bind_ok hrun
  exact hf a mid t s' hrest

theorem either {c : Prop} [Decidable c] {p q : Parser Node} (hp : Builds P p)
    (hq : Builds P q) : Builds P (if c then p else q) := by
  split
  · exact hp
  · exact hq

theorem reject (cause : ParseCause) : Builds P (Parser.reject cause) := by
  intro s t s' hrun
  cases hrun

theorem exhausted : Builds P (throw ParseFault.exhausted) := by
  intro s t s' hrun
  cases hrun

theorem identifier (h : ∀ name, P (.identifier name)) : Builds P Parser.identifier :=
  behind fun name => pure (h name)

end Builds

/-- Boolean trees are made. -/
abbrev BuildsTest (p : Parser Node) : Prop := Builds (fun t => t.isTest = true) p

/-- Arithmetic trees are made. -/
abbrev BuildsTerm (p : Parser Node) : Prop := Builds (fun t => t.isTest = false) p

/-- At a depth, boolean parsers make boolean trees and arithmetic parsers arithmetic ones. -/
structure Sorted (depth : Nat) : Prop where
  boolean : BuildsTest (Parser.boolean depth)
  disjunction : BuildsTest (Parser.disjunction depth)
  moreDisjuncts : ∀ left, left.isTest = true → BuildsTest (Parser.moreDisjuncts depth left)
  conjunction : BuildsTest (Parser.conjunction depth)
  moreConjuncts : ∀ left, left.isTest = true → BuildsTest (Parser.moreConjuncts depth left)
  negation : BuildsTest (Parser.negation depth)
  booleanPrimary : BuildsTest (Parser.booleanPrimary depth)
  arithmetic : BuildsTerm (Parser.arithmetic depth)
  sum : BuildsTerm (Parser.sum depth)
  moreTerms : ∀ left, left.isTest = false → BuildsTerm (Parser.moreTerms depth left)
  product : BuildsTerm (Parser.product depth)
  moreFactors : ∀ left, left.isTest = false → BuildsTerm (Parser.moreFactors depth left)
  power : BuildsTerm (Parser.power depth)
  signed : BuildsTerm (Parser.signed depth)
  primary : BuildsTerm (Parser.primary depth)
  functionCall : BuildsTerm (Parser.functionCall depth)

namespace Sorted

open Builds

theorem zero : Sorted 0 := by
  constructor <;> intros <;> exact exhausted

variable {depth : Nat} (h : Sorted depth)

include h

theorem succ_booleanPrimary : BuildsTest (Parser.booleanPrimary (depth + 1)) := by
  refine behind fun k => either ?_ (either ?_ ?_)
  · exact behind fun lexeme => pure rfl
  -- a parenthesis is dropped, and what is inside it is boolean by itself
  · refine behind fun _ => h.boolean.bind fun inner hinner => ?_
    exact behind fun _ => pure hinner
  · refine behind fun left => behind fun k => either ?_ (pure rfl)
    exact behind fun _ => behind fun right => pure rfl

theorem succ_primary : BuildsTerm (Parser.primary (depth + 1)) := by
  refine behind fun k => either ?_ (either ?_ (either ?_ (either ?_ (.reject _))))
  · exact behind fun lexeme => pure rfl
  · exact behind fun lexeme => pure rfl
  · exact behind fun ahead => either h.functionCall (Builds.identifier fun _ => rfl)
  · refine behind fun _ => h.arithmetic.bind fun inner hinner => ?_
    exact behind fun _ => pure hinner

theorem succ : Sorted (depth + 1) where
  boolean := h.disjunction
  disjunction := h.conjunction.bind h.moreDisjuncts
  moreDisjuncts _ hleft := behind fun _ => either
    (behind fun _ => behind fun _ => h.moreDisjuncts _ rfl) (pure hleft)
  conjunction := h.negation.bind h.moreConjuncts
  moreConjuncts _ hleft := behind fun _ => either
    (behind fun _ => behind fun _ => h.moreConjuncts _ rfl) (pure hleft)
  negation := behind fun _ => either (behind fun _ => behind fun _ => pure rfl) h.booleanPrimary
  booleanPrimary := h.succ_booleanPrimary
  arithmetic := h.sum
  sum := h.product.bind h.moreTerms
  moreTerms _ hleft := behind fun _ => either
    (behind fun _ => behind fun _ => h.moreTerms _ rfl) (pure hleft)
  product := h.power.bind h.moreFactors
  moreFactors _ hleft := behind fun _ => either
    (behind fun _ => behind fun _ => h.moreFactors _ rfl) (pure hleft)
  power := h.signed.bind fun _ hleft => behind fun _ => either
    (behind fun _ => behind fun _ => pure rfl) (pure hleft)
  signed := behind fun _ => either (behind fun _ => behind fun _ => pure rfl) h.primary
  primary := h.succ_primary
  functionCall := behind fun _ => behind fun _ => behind fun _ => behind fun _ => pure rfl

end Sorted

theorem sorted (depth : Nat) : Sorted depth := by
  induction depth with
  | zero => exact .zero
  | succ depth ih => exact ih.succ

/-! ## The attempt and what follows from it -/

/-- An arithmetic tree can be read that no comparison, `and` or `or` makes part of a boolean one. -/
def ReadsTerm (s : State) : Prop :=
  ∃ t s', free arithmetic s = .ok t s' ∧ continuesBoolean s'.token.kind = false

/-- The attempt to read an arithmetic tree succeeds in every state, and leaves it as it was. -/
theorem free_startsBoolean_eq (s : State) :
    ∃ starts, free startsBoolean s = .ok starts s ∧ (starts = false ↔ ReadsTerm s) := by
  rw [free_startsBoolean, glance]
  cases hrun : free arithmetic s with
  | ok t s' =>
      refine ⟨continuesBoolean s'.token.kind, rfl, fun hstop => ⟨t, s', hrun, hstop⟩, ?_⟩
      rintro ⟨t', s'', hrun', hstop⟩
      rw [hrun] at hrun'
      cases hrun'
      exact hstop
  | error e s' =>
      refine ⟨true, rfl, Bool.noConfusion, ?_⟩
      rintro ⟨t', s'', hrun', -⟩
      rw [hrun] at hrun'
      cases hrun'

/-- What the attempt reads comes to an end: with a tree, or with a failure of the text. -/
theorem free_arithmetic_clean {s s' : State} {e : ParseFault}
    (h : free arithmetic s = .error e s') : e.IsClean := by
  have hbound := depthBound_ge s
  rcases ends (fun d e => (same.expressions d e).arithmetic) (d := depthBound s) (s := s)
    (by omega) with ⟨t, s'', hrun, -⟩ | ⟨e', s'', hrun, hclean⟩
  · rw [show free arithmetic s = .ok t s'' from hrun] at h
    cases h
  · rw [show free arithmetic s = .error e' s'' from hrun] at h
    cases h
    exact hclean

/-- What an expression is read as once it is known whether it is boolean. -/
theorem free_expression_of {s : State} {starts : Bool} (h : free startsBoolean s = .ok starts s) :
    free expression s = (if starts then free boolean else free arithmetic) s := by
  rw [free_expression]
  show EStateM.bind (free startsBoolean) _ s = _
  rw [EStateM.bind, h]

theorem free_expression_term {s : State} (h : ReadsTerm s) :
    free expression s = free arithmetic s := by
  obtain ⟨starts, hstarts, hiff⟩ := free_startsBoolean_eq s
  rw [free_expression_of hstarts, hiff.mpr h]
  rfl

theorem free_expression_test {s : State} (h : ¬ ReadsTerm s) :
    free expression s = free boolean s := by
  obtain ⟨starts, hstarts, hiff⟩ := free_startsBoolean_eq s
  have htrue : starts = true := by
    cases hb : starts with
    | true => rfl
    | false => exact absurd (hiff.mp hb) h
  rw [free_expression_of hstarts, htrue]
  rfl

/-- In every state the attempt to read an arithmetic tree ends and leaves no trace, also where the
    text fails it.  An expression is read as an arithmetic tree, up to the same state, if and only
    if one can be read that stops before no comparison, `and` or `or`; in every other case it is
    read, or rejected, as a boolean expression. -/
theorem speculation_coherent (s : State) :
    (∃ starts, runFrom startsBoolean s = .ok starts s) ∧
    (∀ e s', runFrom arithmetic s = .error e s' → e.IsClean) ∧
    (∀ t s', runFrom expression s = .ok t s' ∧ runFrom arithmetic s = .ok t s' ↔
      runFrom arithmetic s = .ok t s' ∧ continuesBoolean s'.token.kind = false) ∧
    ((¬ ∃ t s', runFrom arithmetic s = .ok t s' ∧ continuesBoolean s'.token.kind = false) →
      runFrom expression s = runFrom boolean s) := by
  refine ⟨?_, fun e s' => free_arithmetic_clean, ?_, free_expression_test⟩
  · obtain ⟨starts, hstarts, -⟩ := free_startsBoolean_eq s
    exact ⟨starts, hstarts⟩
  · intro t s'
    constructor
    · rintro ⟨hexpression, harithmetic⟩
      refine ⟨harithmetic, ?_⟩
      by_contra hcontinues
      -- then the tree is read as a boolean one as well, and no tree is of both sorts
      have hnot : ¬ ReadsTerm s := by
        rintro ⟨t', s'', hrun, hstop⟩
        rw [show free arithmetic s = .ok t s' from harithmetic] at hrun
        cases hrun
        exact hcontinues hstop
      have hboolean : free boolean s = .ok t s' :=
        (free_expression_test hnot).symm.trans hexpression
      have htest : t.isTest = true := (sorted (depthBound s)).boolean s t s' hboolean
      have hterm : t.isTest = false := (sorted (depthBound s)).arithmetic s t s' harithmetic
      rw [htest] at hterm
      cases hterm
    · rintro ⟨harithmetic, hstop⟩
      exact ⟨(free_expression_term ⟨t, s', harithmetic, hstop⟩).trans harithmetic, harithmetic⟩

end Parser

end BraceScript
