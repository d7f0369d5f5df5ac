import Mathlib
import BraceScript.Proofs.Parts
import BraceScript.Proofs.Shapes

/-! # Truths — where a value is taken for its truth

    A number, a text or a name can stand where a truth value is asked for, and is then taken for its
    truth.  In a tree this is a node of its own.  The parser of boolean expressions makes it where
    it finds an arithmetic one alone, also between parentheses, but where any expression can stand
    such a tree is never what is left in the end.

    * `Node.conditions`, `Node.others`: the parts that are asked for a truth value, and the rest;
    * `Shaped.truthful`: only the former are truths of values, in all that the grammar describes;
    * `truths_in_place`: and so it is in every tree that is parsed. -/

namespace BraceScript

namespace Node

/-- The parts that are asked for a truth value: the conditions of branches and loops, and the
    operands of `and`, `or` and `not`. -/
def conditions : Node → List Node
  | .ifElse condition _ _ _ | .elif condition _ | .whileLoop condition _ => [condition]
  | .logical left _ right => [left, right]
  | .negation _ operand => [operand]
  | _ => []

/-- The parts that are not asked for a truth value. -/
def others : Node → List Node
  | .ifElse _ body elifs alternative => body :: (elifs ++ [alternative])
  | .elif _ body | .whileLoop _ body => [body]
  | .logical _ _ _ | .negation _ _ => []
  | node => node.children

/-- The expressions whose value is set, given, shown or handed to a routine.  The initial value of
    a for loop is that of an assignment. -/
def values : Node → List Node
  | .variableDecl _ _ values | .constantDecl _ _ values => values
  | .assignment _ value | .give value | .display value => [value]
  | .functionCall _ arguments | .procedureCall _ arguments => arguments
  | _ => []

theorem children_eq (node : Node) : node.children = node.conditions ++ node.others := by
  cases node <;> rfl

theorem values_subset (node : Node) : node.values ⊆ node.others := by
  cases node <;> simp [values, others, children]

/-- Only parts that are asked for a truth value are truths of values. -/
def Truthful (node : Node) : Prop :=
  ∀ part ∈ node.parts, ∀ other ∈ part.others, other.isTruth = false

end Node

/-! ## The grammar -/

/-- A tree that is read as something else than a boolean expression. -/
def Node.Other (node : Node) : Prop := ∃ p, Shaped p node ∧ p ≠ .boolean

namespace Shaped

variable {p : Phrase} {node : Node}

theorem other (h : Shaped p node) (hp : (p == .boolean) = false) : node.Other :=
  ⟨p, h, by simpa using hp⟩

/-- What is not read as a boolean expression is not the truth of another. -/
theorem not_truth (h : Shaped p node) (hp : p ≠ .boolean) : node.isTruth = false := by
  induction h with
  | identifier _ ih | ofArithmetic _ ih | step _ ih => exact ih nofun
  | ofBoolean _ hnode _ => exact hnode
  | boolean _ | logical _ _ _ | negation _ | comparison _ _ _ _ | truth _ _ => exact absurd rfl hp
  | _ => rfl

/-- A boolean expression is read where a truth value is asked for. -/
theorem conditions (h : Shaped p node) : ∀ part ∈ node.conditions, Shaped .boolean part := by
  induction h with
  | identifier _ ih | ofArithmetic _ ih | ofBoolean _ _ ih | step _ ih => exact ih
  | ifElse hcondition _ _ _ | elif hcondition _ | whileLoop hcondition _ | negation hcondition =>
      exact List.forall_mem_singleton.mpr hcondition
  | logical _ hleft hright =>
      exact List.forall_mem_cons.mpr ⟨hleft, List.forall_mem_singleton.mpr hright⟩
  | _ => exact fun part hpart => absurd hpart List.not_mem_nil

/-- Something else is read where none is asked for. -/
theorem others (h : Shaped p node) : ∀ part ∈ node.others, part.Other := by
  have hempty : ∀ part ∈ ([] : List Node), part.Other :=
    fun part hpart => absurd hpart List.not_mem_nil
  have hpair : ∀ {a b : Node}, a.Other → b.Other → ∀ part ∈ [a, b], part.Other := fun ha hb =>
    List.forall_mem_cons.mpr ⟨ha, List.forall_mem_singleton.mpr hb⟩
  induction h with
  | identifier _ ih | ofArithmetic _ ih | ofBoolean _ _ ih | step _ ih => exact ih
  | name _ _ | type _ | number _ | string _ | boolean _ | logical _ _ _ | negation _ | noStep | skip
  | stop | noAlternative => exact hempty
  | parameter htype hname => exact hpair (hname.other rfl) (htype.other rfl)
  | functionCall hcallee harguments | procedureCall hcallee harguments =>
      exact List.forall_mem_cons.mpr
        ⟨hcallee.other rfl, fun a ha => (harguments a ha).other rfl⟩
  | binary _ hleft hright | comparison _ hleft hright _ =>
      exact hpair (hleft.other rfl) (hright.other rfl)
  | unary _ h | truth h _ | give h | display h | otherwise h | program h =>
      exact List.forall_mem_singleton.mpr (h.other rfl)
  | giveNothing => exact List.forall_mem_singleton.mpr (Shaped.noStep.other rfl)
  | elif _ hbody | whileLoop _ hbody => exact List.forall_mem_singleton.mpr (hbody.other rfl)
  | assignment htarget hvalue => exact hpair (htarget.other rfl) (hvalue.other rfl)
  | variableDecl htype _ hnames hvalues _ | constantDecl htype _ hnames hvalues _ =>
      refine List.forall_mem_cons.mpr ⟨htype.other rfl, List.forall_mem_append.mpr ⟨?_, ?_⟩⟩
      · exact fun n hn => (hnames n hn).other rfl
      · exact fun v hv => (hvalues v hv).other rfl
  | functionDecl hname hparameters htype hbody =>
      refine List.forall_mem_cons.mpr ⟨hname.other rfl, List.forall_mem_append.mpr ⟨?_, ?_⟩⟩
      · exact fun q hq => (hparameters q hq).other rfl
      · exact hpair (htype.other rfl) (hbody.other rfl)
  | procedureDecl hname hparameters hbody =>
      refine List.forall_mem_cons.mpr ⟨hname.other rfl, List.forall_mem_append.mpr ⟨?_, ?_⟩⟩
      · exact fun q hq => (hparameters q hq).other rfl
      · exact List.forall_mem_singleton.mpr (hbody.other rfl)
  | ifElse _ hbody helifs halternative =>
      refine List.forall_mem_cons.mpr ⟨hbody.other rfl, List.forall_mem_append.mpr ⟨?_, ?_⟩⟩
      · exact fun e he => (helifs e he).other rfl
      · exact List.forall_mem_singleton.mpr (halternative.other rfl)
  | forLoop htarget hvalue htermination hstep hbody =>
      refine List.forall_mem_cons.mpr ⟨(assignment htarget hvalue).other rfl, ?_⟩
      refine List.forall_mem_cons.mpr ⟨htermination.other rfl, ?_⟩
      exact hpair (hstep.other rfl) (hbody.other rfl)
  | block h => exact fun s hs => (h s hs).other rfl

/-- What the grammar describes has truths of values only where a truth value is asked for. -/
theorem truthful (h : Shaped p node) : node.Truthful := by
  induction node using Node.children_induction generalizing p with
  | h node ih =>
      intro part hpart
      rcases Node.mem_parts.mp hpart with rfl | ⟨child, hchild, hpart⟩
      · intro other hother
        obtain ⟨q, hq, hne⟩ := h.others other hother
        exact hq.not_truth hne
      · have hread : ∃ q, Shaped q child := by
          rw [Node.children_eq] at hchild
          rcases List.mem_append.mp hchild with hcondition | hother
          · exact ⟨_, h.conditions child hcondition⟩
          · obtain ⟨q, hq, -⟩ := h.others child hother
            exact ⟨q, hq⟩
        obtain ⟨q, hq⟩ := hread
        exact ih child hchild hq part hpart

end Shaped

/-! ## Programs -/

/-- In every tree that is parsed, the truth of a value is taken only in the condition of an if, an
    elif or a while, or as an operand of `and`, `or` or `not`.  It is never itself what is declared,
    assigned, given, shown or handed to a routine. -/
theorem truths_in_place {source : String} {tree : Node} (h : parse source = .ok tree) :
    tree.isTruth = false ∧ ∀ part ∈ tree.parts,
      part.children = part.conditions ++ part.others ∧
      (∀ other ∈ part.others, other.isTruth = false) ∧
      ∀ value ∈ part.values, value.isTruth = false := by
  have hshaped := parse_shaped h
  refine ⟨hshaped.not_truth nofun, fun part hpart => ⟨part.children_eq, ?_, ?_⟩⟩
  · exact hshaped.truthful part hpart
  · intro value hvalue
    exact hshaped.truthful part hpart value (part.values_subset hvalue)

/-- A number in parentheses is taken for its truth before `and`, and not by itself. -/
theorem truths_in_place_grouped :
    ∃ tree part,
      parse "\x7b\nif (1) \x7b\nshow ((2)) and not (3)\nshow ((4))\n\x7d\n\x7d" = .ok tree ∧
      part ∈ tree.parts ∧ part.conditions = [.truth (.number "1")] ∧
      ∀ other ∈ part.others, other.isTruth = false := by
  let condition := Node.truth (.number "1")
  let body := Node.block
    [.display (.logical (.truth (.number "2")) "and" (.negation "not" (.truth (.number "3")))),
      .display (.number "4")]
  let branch := Node.ifElse condition body [] .absent
  let tree := Node.program (.block [branch])
  have hparse : parse "\x7b\nif (1) \x7b\nshow ((2)) and not (3)\nshow ((4))\n\x7d\n\x7d" =
      .ok tree := by cbv
  have hblock : Node.block [branch] ∈ tree.parts :=
    Node.mem_parts_of_mem_children (Node.self_mem_parts tree) List.mem_cons_self
  have hbranch : branch ∈ tree.parts := Node.mem_parts_of_mem_children hblock List.mem_cons_self
  exact ⟨tree, branch, hparse, hbranch, rfl, ((truths_in_place hparse).2 branch hbranch).2.1⟩

end BraceScript
