import Mathlib
import BraceScript.Node.Form
import BraceScript.Proofs.Delimiters
import BraceScript.Proofs.Rendering

/-! # Operator forms — what the texts with operators in front or behind say

    Arithmetic written with its operators in front stands in parentheses, and can be read back up to
    what is not written: unary pluses, and the first and last character of each number.  Behind
    their operands the operators stand without parentheses, and a minus sign does not say whether it
    takes one operand or two: such a text can be read back once that is known of every minus sign.

    * `Calculation`: trees of numbers, signs and operations; `Node.skeleton`: what is written of
      them;
    * `front_unambiguous`: with operators in front, the text determines the skeleton;
    * `behind_ambiguous`: with operators behind, it does not;
    * `behind_determined`: together with the operands of each minus sign, it does. -/

namespace BraceScript

/-- Trees of numbers, signs and the operations of arithmetic; what is written of each number is of
    the class `P`. -/
inductive Calculation (P : String → Prop) : Node → Prop
  | number {lexeme : String} (h : P (Form.numberText lexeme)) : Calculation P (.number lexeme)
  | signed {k : Kind} {operand : Node} (hk : k.isAdditive = true) (h : Calculation P operand) :
      Calculation P (.unary k.text operand)
  | operation {k : Kind} {left right : Node} (hk : k.isArithmetic = true)
      (hleft : Calculation P left) (hright : Calculation P right) :
      Calculation P (.binary left k.text right)

/-- A tree without its unary pluses, and with what is written of each number in its place. -/
def Node.skeleton : Node → Node
  | .number lexeme => .number (Form.numberText lexeme)
  | .unary operator operand =>
      if operator = "+" then operand.skeleton else .unary operator operand.skeleton
  | .binary left operator right => .binary left.skeleton operator right.skeleton
  | node => node

/-- The trees that are left when no unary plus is. -/
inductive Skeletal (P : String → Prop) : Node → Prop
  | number {core : String} (h : P core) : Skeletal P (.number core)
  | minus {operand : Node} (h : Skeletal P operand) : Skeletal P (.unary "-" operand)
  | operation {k : Kind} {left right : Node} (hk : k.isArithmetic = true)
      (hleft : Skeletal P left) (hright : Skeletal P right) :
      Skeletal P (.binary left k.text right)

theorem Kind.additive_cases {k : Kind} (h : k.isAdditive = true) : k = .plus ∨ k = .minus := by
  cases k <;> first | exact .inl rfl | exact .inr rfl | cases h

section

variable {P : String → Prop}

theorem Calculation.plus {t : Node} (h : Calculation P t) : Calculation P (.unary "+" t) :=
  .signed (k := .plus) rfl h

theorem Calculation.minus {t : Node} (h : Calculation P t) : Calculation P (.unary "-" t) :=
  .signed (k := .minus) rfl h

theorem Calculation.difference {t u : Node} (ht : Calculation P t) (hu : Calculation P u) :
    Calculation P (.binary t "-" u) :=
  .operation (k := .minus) rfl ht hu

theorem Calculation.skeletal {t : Node} (h : Calculation P t) : Skeletal P t.skeleton := by
  induction h with
  | number h => exact .number h
  | signed hk _ ih =>
      rcases Kind.additive_cases hk with rfl | rfl
      · exact ih
      · exact .minus ih
  | operation hk _ _ ihl ihr => exact .operation hk ihl ihr

/-- The text of a skeleton. -/
def Form.spell (f : Form) : Node → String
  | .number core => core
  | .unary operator operand => f.joinUnary operator (f.spell operand)
  | .binary left operator right => f.joinBinary operator (f.spell left) (f.spell right)
  | _ => ""

/-- Every calculation has a text, which is that of its skeleton. -/
theorem Form.write_eq (f : Form) {t : Node} (h : Calculation P t) :
    f.write true t = .ok (f.spell t.skeleton) := by
  induction h with
  | number h => rfl
  | signed hk _ ih =>
      rw [Form.write, if_pos rfl, ih]
      rcases Kind.additive_cases hk with rfl | rfl <;> rfl
  | operation hk _ _ ihl ihr =>
      rw [Form.write, if_pos rfl, ihl, ihr]
      rfl

end

/-! ## Operators in front -/

/-- What can stand in parentheses beside other operands: characters, but no blank or parenthesis. -/
def IsAtom (core : String) : Prop :=
  core ≠ "" ∧ ∀ c ∈ core.toList, c ≠ ' ' ∧ c ≠ '(' ∧ c ≠ ')'

instance (core : String) : Decidable (IsAtom core) :=
  haveI := List.decidableBAll (fun c => c ≠ ' ' ∧ c ≠ '(' ∧ c ≠ ')') core.toList
  inferInstanceAs (Decidable (core ≠ "" ∧ ∀ c ∈ core.toList, c ≠ ' ' ∧ c ≠ '(' ∧ c ≠ ')'))

/-- What can follow an operand. -/
def endsOperand (c : Char) : Bool := c = ' ' || c = ')'

theorem toList_front_minus (operand : Node) (rest : List Char) :
    (Form.front.spell (.unary "-" operand)).toList ++ rest
      = '(' :: (Kind.minus.text.toList
        ++ ' ' :: ((Form.front.spell operand).toList ++ ')' :: rest)) := by
  simp [Form.spell, Form.joinUnary, Kind.text]

theorem toList_front_operation (left : Node) (operator : String) (right : Node) (rest : List Char) :
    (Form.front.spell (.binary left operator right)).toList ++ rest
      = '(' :: (operator.toList ++ ' ' :: ((Form.front.spell left).toList
        ++ ' ' :: ((Form.front.spell right).toList ++ ')' :: rest))) := by
  simp [Form.spell, Form.joinBinary]

/-- No operator has a blank or a parenthesis in it. -/
theorem Kind.arithmetic_unbroken {k : Kind} (h : k.isArithmetic = true) :
    ∀ c ∈ k.text.toList, endsOperand c = false := by
  have hany : k.text.toList.any endsOperand = false := by cases k <;> first | rfl | cases h
  simpa using hany

theorem IsAtom.unbroken {core : String} (h : IsAtom core) :
    ∀ c ∈ core.toList, endsOperand c = false := by
  intro c hc
  obtain ⟨hblank, -, hclose⟩ := h.2 c hc
  simp [endsOperand, hblank, hclose]

/-- What stands in parentheses is no number. -/
theorem IsAtom.ne_open {core : String} (h : IsAtom core) (rest inside : List Char) :
    core.toList ++ rest ≠ '(' :: inside := by
  cases hcore : core.toList with
  | nil => exact absurd (String.toList_eq_nil_iff.mp hcore) h.1
  | cons c cs =>
      intro heq
      have hc : c ≠ '(' := (h.2 c (by rw [hcore]; exact List.mem_cons_self)).2.1
      exact hc (List.cons.inj heq).1

/-- Behind a parenthesis stands an operator, up to the first blank. -/
theorem cut_operator {k k' : Kind} {rest rest' : List Char} (hk : k.isArithmetic = true)
    (hk' : k'.isArithmetic = true)
    (h : '(' :: (k.text.toList ++ ' ' :: rest) = '(' :: (k'.text.toList ++ ' ' :: rest')) :
    k.text = k'.text ∧ rest = rest' := by
  obtain ⟨hoperator, hrest⟩ := Text.cut_word (Kind.arithmetic_unbroken hk)
    (Kind.arithmetic_unbroken hk') (Text.stops_cons rfl _) (Text.stops_cons rfl _)
    (List.cons.inj h).2
  exact ⟨String.toList_injective hoperator, (List.cons.inj hrest).2⟩

/-- With operators in front, a skeleton and where its text ends can be told from what begins with
    it: a parenthesis opens an operation, and what stands behind the first operand tells how many it
    has. -/
theorem Skeletal.cut_front {a b : Node} {rest rest' : List Char} (ha : Skeletal IsAtom a)
    (hb : Skeletal IsAtom b) (hrest : Text.Stops endsOperand rest)
    (hrest' : Text.Stops endsOperand rest')
    (h : (Form.front.spell a).toList ++ rest = (Form.front.spell b).toList ++ rest') :
    a = b ∧ rest = rest' := by
  induction ha generalizing b rest rest' with
  | number hcore =>
      cases hb with
      | number hcore' =>
          obtain ⟨hcores, heq⟩ := Text.cut_word hcore.unbroken hcore'.unbroken hrest hrest' h
          exact ⟨congrArg Node.number (String.toList_injective hcores), heq⟩
      | minus _ =>
          rw [toList_front_minus] at h
          exact absurd h (hcore.ne_open _ _)
      | operation _ _ _ =>
          rw [toList_front_operation] at h
          exact absurd h (hcore.ne_open _ _)
  | minus _ ih =>
      rw [toList_front_minus] at h
      cases hb with
      | number hcore => exact absurd h.symm (hcore.ne_open _ _)
      | minus hb =>
          rw [toList_front_minus] at h
          obtain ⟨-, hinside⟩ := cut_operator rfl rfl h
          obtain ⟨rfl, hclose⟩ := ih hb (Text.stops_cons rfl _) (Text.stops_cons rfl _) hinside
          exact ⟨rfl, (List.cons.inj hclose).2⟩
      | operation hk hl hr =>
          rw [toList_front_operation] at h
          obtain ⟨-, hinside⟩ := cut_operator rfl hk h
          obtain ⟨-, hclose⟩ := ih hl (Text.stops_cons rfl _) (Text.stops_cons rfl _) hinside
          -- the first operand is the same, but here a parenthesis follows it and there a blank
          exact absurd (List.cons.inj hclose).1 (by decide)
  | operation hk _ _ ihl ihr =>
      rw [toList_front_operation] at h
      cases hb with
      | number hcore => exact absurd h.symm (hcore.ne_open _ _)
      | minus hb =>
          rw [toList_front_minus] at h
          obtain ⟨-, hinside⟩ := cut_operator hk rfl h
          obtain ⟨-, hclose⟩ := ihl hb (Text.stops_cons rfl _) (Text.stops_cons rfl _) hinside
          exact absurd (List.cons.inj hclose).1 (by decide)
      | operation hk' hl hr =>
          rw [toList_front_operation] at h
          obtain ⟨hoperator, hinside⟩ := cut_operator hk hk' h
          obtain ⟨rfl, hsecond⟩ := ihl hl (Text.stops_cons rfl _) (Text.stops_cons rfl _) hinside
          obtain ⟨rfl, hclose⟩ := ihr hr (Text.stops_cons rfl _) (Text.stops_cons rfl _)
            (List.cons.inj hsecond).2
          rw [hoperator]
          exact ⟨rfl, (List.cons.inj hclose).2⟩

/-- With operators in front, calculations have a text, and two of them the same one if and only if
    they are the same up to unary pluses and the first and last characters of their numbers. -/
theorem front_unambiguous {t u : Node} (ht : Calculation IsAtom t) (hu : Calculation IsAtom u) :
    ∃ x y, Form.front.write true t = .ok x ∧ Form.front.write true u = .ok y ∧
      (x = y ↔ t.skeleton = u.skeleton) := by
  refine ⟨_, _, Form.front.write_eq ht, Form.front.write_eq hu, ?_, fun h => by rw [h]⟩
  intro h
  have hcut := ht.skeletal.cut_front hu.skeletal (Text.stops_nil _) (Text.stops_nil _) (by rw [h])
  exact hcut.1

/-- A minus sign with two operands, one with one operand, and one that is what is written of a
    number. -/
theorem front_unambiguous_minus_signs :
    ∃ t u, t = Node.binary (.unary "+" (.number "010")) "-" (.unary "-" (.number "0-0")) ∧
      u = Node.binary (.number "313") "-" (.unary "+" (.unary "-" (.number "7-7"))) ∧
      Calculation IsAtom t ∧ Calculation IsAtom u ∧
      Form.front.write true t = .ok "(- 1 (- -))" ∧ Form.front.write true u = .ok "(- 1 (- -))" ∧
      ∃ x y, Form.front.write true t = .ok x ∧ Form.front.write true u = .ok y ∧
        (x = y ↔ t.skeleton = u.skeleton) := by
  have hnumber (lexeme : String) (h : IsAtom (Form.numberText lexeme)) :
      Calculation IsAtom (.number lexeme) := .number h
  have ht := (hnumber "010" (by decide)).plus.difference (hnumber "0-0" (by decide)).minus
  have hu := (hnumber "313" (by decide)).difference (hnumber "7-7" (by decide)).minus.plus
  exact ⟨_, _, rfl, rfl, ht, hu, rfl, rfl, front_unambiguous ht hu⟩

/-! ## Operators behind -/

/-- Digits, and at least one. -/
def IsDigits (core : String) : Prop := core ≠ "" ∧ ∀ c ∈ core.toList, isDigit c = true

instance (core : String) : Decidable (IsDigits core) :=
  haveI := List.decidableBAll (fun c => isDigit c = true) core.toList
  inferInstanceAs (Decidable (core ≠ "" ∧ ∀ c ∈ core.toList, isDigit c = true))

/-- How many operands each minus sign of a tree takes, in the order in which the signs stand when
    they are written behind their operands. -/
def Node.minusOperands : Node → List Nat
  | .unary operator operand => operand.minusOperands ++ (if operator = "-" then [1] else [])
  | .binary left operator right =>
      left.minusOperands ++ right.minusOperands ++ (if operator = "-" then [2] else [])
  | _ => []

/-- What stands between blanks: a number, or an operator and how many operands it takes, which is
    not written. -/
inductive Item where
  | operand (core : String)
  | operator (text : String) (operands : Nat)
  deriving DecidableEq, Repr

namespace Item

/-- How an item is written. -/
def text : Item → String
  | .operand core => core
  | .operator text _ => text

/-- Whether an item is a number. -/
def isOperand : Item → Bool
  | .operand _ => true
  | .operator _ _ => false

/-- The number of operands of a minus sign. -/
def minusOperands : Item → List Nat
  | .operand _ => []
  | .operator text operands => if text = "-" then [operands] else []

/-- Takes its operands from the trees read so far, last first, and puts its own tree there. -/
def read (stack : List Node) : Item → List Node
  | .operand core => .number core :: stack
  | .operator text operands =>
      match operands, stack with
      | 1, node :: stack => .unary text node :: stack
      | 2, right :: left :: stack => .binary left text right :: stack
      | _, _ => []

/-- The items of calculations: numbers of digits, operators with two operands and the minus sign
    with one. -/
def Sound : Item → Prop
  | .operand core => IsDigits core
  | .operator text operands =>
      ∃ k : Kind, k.isArithmetic = true ∧ text = k.text ∧ (operands = 2 ∨ operands = 1 ∧ k = .minus)

end Item

/-- The items of a skeleton in the order in which they are written. -/
def Node.items : Node → List Item
  | .number core => [.operand core]
  | .unary operator operand => operand.items ++ [.operator operator 1]
  | .binary left operator right => left.items ++ right.items ++ [.operator operator 2]
  | _ => []

/-! ### From trees to items -/

section

variable {P : String → Prop} {a b : Node}

theorem Calculation.minusOperands_skeleton {t : Node} (h : Calculation P t) :
    t.skeleton.minusOperands = t.minusOperands := by
  induction h with
  | number h => rfl
  | signed hk _ ih =>
      rcases Kind.additive_cases hk with rfl | rfl
      · exact ih.trans (List.append_nil _).symm
      · exact congrArg (· ++ [1]) ih
  | operation hk _ _ ihl ihr =>
      rw [Node.skeleton, Node.minusOperands, ihl, ihr]
      rfl

/-- The text of a skeleton is that of its items, each behind a blank but the first. -/
theorem Skeletal.toList_behind (h : Skeletal P a) :
    ' ' :: (Form.behind.spell a).toList = a.items.flatMap fun item => ' ' :: item.text.toList := by
  induction h with
  | number h => simp [Form.spell, Node.items, Item.text]
  | minus _ ih =>
      rw [Node.items, List.flatMap_append, ← ih]
      simp [Form.spell, Form.joinUnary, Item.text]
  | operation _ _ _ ihl ihr =>
      rw [Node.items, List.flatMap_append, List.flatMap_append, ← ihl, ← ihr]
      simp [Form.spell, Form.joinBinary, Item.text]

/-- A skeleton is read back from its items, whatever was read before. -/
theorem Skeletal.foldl_items (h : Skeletal P a) (stack : List Node) :
    a.items.foldl Item.read stack = a :: stack := by
  induction h generalizing stack with
  | number h => rfl
  | minus _ ih =>
      rw [Node.items, List.foldl_append, ih]
      rfl
  | operation _ _ _ ihl ihr =>
      rw [Node.items, List.foldl_append, List.foldl_append, ihl, ihr]
      rfl

theorem Skeletal.eq_of_items (ha : Skeletal P a) (hb : Skeletal P b) (h : a.items = b.items) :
    a = b := by
  have hread := ha.foldl_items []
  rw [h, hb.foldl_items] at hread
  exact (List.cons.inj hread).1.symm

theorem Skeletal.minusOperands_items (h : Skeletal P a) :
    a.items.flatMap Item.minusOperands = a.minusOperands := by
  induction h with
  | number h => rfl
  | minus _ ih =>
      rw [Node.items, List.flatMap_append, ih]
      rfl
  | operation _ _ _ ihl ihr =>
      rw [Node.items, List.flatMap_append, List.flatMap_append, ihl, ihr, Node.minusOperands,
        List.flatMap_singleton]
      rfl

theorem Skeletal.sound_items (h : Skeletal IsDigits a) : ∀ item ∈ a.items, item.Sound := by
  induction h with
  | number h => exact List.forall_mem_singleton.mpr h
  | minus _ ih =>
      refine List.forall_mem_append.mpr ⟨ih, List.forall_mem_singleton.mpr ?_⟩
      exact ⟨.minus, rfl, rfl, .inr ⟨rfl, rfl⟩⟩
  | operation hk _ _ ihl ihr =>
      refine List.forall_mem_append.mpr
        ⟨List.forall_mem_append.mpr ⟨ihl, ihr⟩, List.forall_mem_singleton.mpr ?_⟩
      exact ⟨_, hk, rfl, .inl rfl⟩

/-- The numbers and the items of a skeleton say how many of its minus signs take one operand: every
    other operator makes one operand of two. -/
theorem Skeletal.count_minus (h : Skeletal P a) :
    a.minusOperands.count 1 + 2 * a.items.countP Item.isOperand = a.items.length + 1 := by
  induction h with
  | number h => rfl
  | minus _ ih =>
      simp only [Node.minusOperands, Node.items, List.count_append, List.countP_append,
        List.length_append]
      simp [Item.isOperand]
      omega
  | @operation k _ _ hk _ _ ihl ihr =>
      have hlast : (if k.text = "-" then [2] else []).count 1 = 0 := by split <;> rfl
      simp only [Node.minusOperands, Node.items, List.count_append, List.countP_append,
        List.length_append, hlast]
      simp [Item.isOperand]
      omega

end

/-! ### From texts to items -/

theorem IsDigits.ne_sign {core : String} (h : IsDigits core) (k : Kind) : core ≠ k.text := by
  have hsigns : k.text.toList.any isDigit = false := by cases k <;> rfl
  rintro rfl
  obtain ⟨c, cs, hcore⟩ := List.exists_cons_of_ne_nil (mt String.toList_eq_nil_iff.mp h.1)
  have hc : c ∈ k.text.toList := by rw [hcore]; exact List.mem_cons_self
  exact List.any_eq_false.mp hsigns c hc (h.2 c hc)

/-- Words without blanks can be told apart when a blank stands before each. -/
theorem cut_blanks {xs ys : List (List Char)} (hxs : ∀ x ∈ xs, ∀ c ∈ x, (c == ' ') = false)
    (hys : ∀ y ∈ ys, ∀ c ∈ y, (c == ' ') = false)
    (h : xs.flatMap (' ' :: ·) = ys.flatMap (' ' :: ·)) : xs = ys := by
  have hstops : ∀ zs : List (List Char), Text.Stops (· == ' ') (zs.flatMap (' ' :: ·)) := by
    intro zs
    cases zs with
    | nil => exact Text.stops_nil _
    | cons z zs => exact Text.stops_cons rfl _
  induction xs generalizing ys with
  | nil =>
      cases ys with
      | nil => rfl
      | cons y ys => cases h
  | cons x xs ih =>
      cases ys with
      | nil => cases h
      | cons y ys =>
          obtain ⟨hx, hothers⟩ := List.forall_mem_cons.mp hxs
          obtain ⟨hy, hothers'⟩ := List.forall_mem_cons.mp hys
          obtain ⟨rfl, hmore⟩ :=
            Text.cut_word hx hy (hstops xs) (hstops ys) (List.cons.inj h).2
          rw [ih hothers hothers' hmore]

namespace Item

variable {x y : Item} {xs ys : List Item}

theorem Sound.unbroken (h : x.Sound) : ∀ c ∈ x.text.toList, (c == ' ') = false := by
  cases x with
  | operand core =>
      intro c hc
      have hdigit := h.2 c hc
      rw [beq_eq_false_iff_ne]
      rintro rfl
      exact absurd hdigit (by decide)
  | operator text operands =>
      obtain ⟨k, -, rfl, -⟩ := h
      have hsigns : k.text.toList.any (· == ' ') = false := by cases k <;> rfl
      exact fun c hc => Bool.eq_false_iff.mpr (List.any_eq_false.mp hsigns c hc)

/-- Two items that are written alike; they may differ in the operands of a minus sign. -/
structure Alike (x y : Item) : Prop where
  left : x.Sound
  right : y.Sound
  text : x.text = y.text

theorem alike_of_texts (hxs : ∀ x ∈ xs, x.Sound) (hys : ∀ y ∈ ys, y.Sound)
    (h : xs.map Item.text = ys.map Item.text) : List.Forall₂ Alike xs ys := by
  induction xs generalizing ys with
  | nil =>
      rw [List.map_eq_nil_iff.mp h.symm]
      exact .nil
  | cons x xs ih =>
      cases ys with
      | nil => cases h
      | cons y ys =>
          obtain ⟨hx, hothers⟩ := List.forall_mem_cons.mp hxs
          obtain ⟨hy, hothers'⟩ := List.forall_mem_cons.mp hys
          obtain ⟨htext, htexts⟩ := List.cons.inj h
          exact .cons ⟨hx, hy, htext⟩ (ih hothers hothers' htexts)

/-- Either both are the same number, or both are operators with the same text. -/
theorem Alike.cases (h : Alike x y) :
    (∃ core, x = .operand core ∧ y = .operand core) ∨
      ∃ text m n, x = .operator text m ∧ y = .operator text n := by
  obtain ⟨hx, hy, htext⟩ := h
  cases x with
  | operand core =>
      cases y with
      | operand core' => exact .inl ⟨core, rfl, congrArg Item.operand htext.symm⟩
      | operator text operands =>
          obtain ⟨k, -, rfl, -⟩ := hy
          exact absurd htext (IsDigits.ne_sign hx k)
  | operator text operands =>
      cases y with
      | operand core =>
          obtain ⟨k, -, rfl, -⟩ := hx
          exact absurd htext.symm (IsDigits.ne_sign hy k)
      | operator text' operands' =>
          obtain rfl : text = text' := htext
          exact .inr ⟨text, operands, operands', rfl, rfl⟩

theorem Alike.isOperand_eq (h : Alike x y) : x.isOperand = y.isOperand := by
  obtain ⟨core, rfl, rfl⟩ | ⟨text, m, n, rfl, rfl⟩ := h.cases <;> rfl

theorem Alike.length_minusOperands (h : Alike x y) :
    x.minusOperands.length = y.minusOperands.length := by
  obtain ⟨core, rfl, rfl⟩ | ⟨text, m, n, rfl, rfl⟩ := h.cases
  · rfl
  · simp only [Item.minusOperands]
    split <;> rfl

/-- An operator other than the minus sign takes two operands. -/
theorem Sound.two_operands {text : String} {n : Nat} (h : (Item.operator text n).Sound)
    (hminus : text ≠ "-") : n = 2 := by
  obtain ⟨k, -, rfl, htwo | ⟨-, rfl⟩⟩ := h
  · exact htwo
  · exact absurd rfl hminus

theorem Alike.eq_of_minusOperands (h : Alike x y) (hminus : x.minusOperands = y.minusOperands) :
    x = y := by
  obtain ⟨core, rfl, rfl⟩ | ⟨text, m, n, rfl, rfl⟩ := h.cases
  · rfl
  · by_cases htext : text = "-"
    · simp only [Item.minusOperands, if_pos htext] at hminus
      rw [(List.cons.inj hminus).1]
    · rw [h.left.two_operands htext, h.right.two_operands htext]

/-- Items that are written alike are the same, if they agree on the operands of each minus sign. -/
theorem eq_of_alike (h : List.Forall₂ Alike xs ys)
    (hminus : xs.flatMap Item.minusOperands = ys.flatMap Item.minusOperands) : xs = ys := by
  induction h with
  | nil => rfl
  | cons halike _ ih =>
      rw [List.flatMap_cons, List.flatMap_cons] at hminus
      obtain ⟨hfirst, hmore⟩ := List.append_inj hminus halike.length_minusOperands
      rw [halike.eq_of_minusOperands hfirst, ih hmore]

/-- What the texts of items say whatever their minus signs mean: how many items are numbers, and how
    many are minus signs. -/
theorem counts_of_alike (h : List.Forall₂ Alike xs ys) :
    xs.countP Item.isOperand = ys.countP Item.isOperand ∧
      (xs.flatMap Item.minusOperands).length = (ys.flatMap Item.minusOperands).length := by
  induction h with
  | nil => exact ⟨rfl, rfl⟩
  | cons halike _ ih =>
      obtain ⟨hcount, hminus⟩ := ih
      refine ⟨?_, ?_⟩
      · rw [List.countP_cons, List.countP_cons, hcount, halike.isOperand_eq]
      · rw [List.flatMap_cons, List.flatMap_cons, List.length_append, List.length_append, hminus,
          halike.length_minusOperands]

end Item

/-! ### Reading back -/

/-- The blanks of a text set its items apart. -/
theorem Skeletal.alike_of_behind {a b : Node} (ha : Skeletal IsDigits a) (hb : Skeletal IsDigits b)
    (h : Form.behind.spell a = Form.behind.spell b) : List.Forall₂ Item.Alike a.items b.items := by
  have hblanks := ha.toList_behind
  rw [h, hb.toList_behind] at hblanks
  have hcut : b.items.map (fun item => item.text.toList)
      = a.items.map fun item => item.text.toList := by
    refine cut_blanks ?_ ?_ (by rwa [List.flatMap_map, List.flatMap_map])
    · exact List.forall_mem_map.mpr fun item hitem => (hb.sound_items item hitem).unbroken
    · exact List.forall_mem_map.mpr fun item hitem => (ha.sound_items item hitem).unbroken
  have hinjective : Function.Injective String.toList := fun _ _ => String.toList_injective
  refine Item.alike_of_texts ha.sound_items hb.sound_items
    (List.map_injective_iff.mpr hinjective ?_)
  rw [List.map_map, List.map_map]
  exact hcut.symm

theorem Skeletal.mem_minusOperands {a : Node} (h : Skeletal IsDigits a) :
    ∀ n ∈ a.minusOperands, n = 1 ∨ n = 2 := by
  intro n hn
  rw [← h.minusOperands_items] at hn
  obtain ⟨item, hitem, hmem⟩ := List.mem_flatMap.mp hn
  have hsound := h.sound_items item hitem
  cases item with
  | operand core => exact absurd hmem List.not_mem_nil
  | operator text operands =>
      obtain ⟨k, -, -, hcount⟩ := hsound
      simp only [Item.minusOperands] at hmem
      split at hmem
      · rw [List.mem_singleton.mp hmem]
        exact (hcount.imp id And.left).symm
      · exact absurd hmem List.not_mem_nil

theorem length_of_ones_twos {xs : List Nat} (hxs : ∀ n ∈ xs, n = 1 ∨ n = 2) :
    xs.length = xs.count 1 + xs.count 2 := by
  induction xs with
  | nil => rfl
  | cons x xs ih =>
      obtain ⟨hx, hothers⟩ := List.forall_mem_cons.mp hxs
      have hmore := ih hothers
      rcases hx with rfl | rfl <;> simp <;> omega

/-- Lists of ones and twos with as many items and as many ones are rearrangements of each other. -/
theorem perm_of_ones {xs ys : List Nat} (hxs : ∀ n ∈ xs, n = 1 ∨ n = 2)
    (hys : ∀ n ∈ ys, n = 1 ∨ n = 2) (hlength : xs.length = ys.length)
    (hones : xs.count 1 = ys.count 1) : xs.Perm ys := by
  have htwos : xs.count 2 = ys.count 2 := by
    have hx := length_of_ones_twos hxs
    have hy := length_of_ones_twos hys
    omega
  refine List.perm_iff_count.mpr fun n => ?_
  by_cases hn : n = 1 ∨ n = 2
  · rcases hn with rfl | rfl
    · exact hones
    · exact htwos
  · rw [List.count_eq_zero_of_not_mem fun hmem => hn (hxs n hmem),
      List.count_eq_zero_of_not_mem fun hmem => hn (hys n hmem)]

/-- Trees with the same text have as many minus signs of each sort. -/
theorem Skeletal.perm_of_behind {a b : Node} (ha : Skeletal IsDigits a) (hb : Skeletal IsDigits b)
    (h : Form.behind.spell a = Form.behind.spell b) : a.minusOperands.Perm b.minusOperands := by
  have halike := ha.alike_of_behind hb h
  have hlength := halike.length_eq
  obtain ⟨hcount, hminus⟩ := Item.counts_of_alike halike
  rw [ha.minusOperands_items, hb.minusOperands_items] at hminus
  refine perm_of_ones ha.mem_minusOperands hb.mem_minusOperands hminus ?_
  -- items and numbers are as many in both, and with them the minus signs of one operand
  have hones := ha.count_minus
  have hones' := hb.count_minus
  omega

theorem Skeletal.eq_of_behind {a b : Node} (ha : Skeletal IsDigits a) (hb : Skeletal IsDigits b)
    (h : Form.behind.spell a = Form.behind.spell b) (hminus : a.minusOperands = b.minusOperands) :
    a = b := by
  refine ha.eq_of_items hb (Item.eq_of_alike (ha.alike_of_behind hb h) ?_)
  rw [ha.minusOperands_items, hb.minusOperands_items, hminus]

/-- What is the same throughout has only itself for a rearrangement. -/
theorem eq_of_perm_const {xs ys : List Nat} {m : Nat} (hxs : ∀ n ∈ xs, n = m) (h : xs.Perm ys) :
    xs = ys := by
  rw [List.eq_replicate_of_mem hxs] at h ⊢
  exact List.replicate_perm.mp h

/-- With operators behind, two trees can have one text: the minus signs of `-(010 - 020)` and of
    `010 - -020` stand in the same places. -/
theorem behind_ambiguous :
    ∃ t u, t = Node.unary "-" (.binary (.number "010") "-" (.number "020")) ∧
      u = Node.binary (.number "010") "-" (.unary "-" (.number "020")) ∧
      Calculation IsDigits t ∧ Calculation IsDigits u ∧
      Form.behind.write true t = .ok "1 2 - -" ∧ Form.behind.write true u = .ok "1 2 - -" ∧
      t.skeleton ≠ u.skeleton := by
  have hone : Calculation IsDigits (.number "010") := .number (by decide)
  have htwo : Calculation IsDigits (.number "020") := .number (by decide)
  refine ⟨_, _, rfl, rfl, (hone.difference htwo).minus, hone.difference htwo.minus, rfl, rfl, ?_⟩
  intro h
  cases h

/-- With operators behind, calculations have a text.  Two of them have the same text and minus signs
    with the same numbers of operands, in order, if and only if they are the same up to unary pluses
    and the first and last characters of their numbers.  The text alone says how many minus signs
    take one operand and how many two; so where one of the two sorts is missing, it says all. -/
theorem behind_determined {t u : Node} (ht : Calculation IsDigits t) (hu : Calculation IsDigits u) :
    ∃ x y, Form.behind.write true t = .ok x ∧ Form.behind.write true u = .ok y ∧
      (x = y ∧ t.minusOperands = u.minusOperands ↔ t.skeleton = u.skeleton) ∧
      (x = y → t.minusOperands.Perm u.minusOperands) ∧
      (x = y → 1 ∉ t.minusOperands ∨ 2 ∉ t.minusOperands → t.skeleton = u.skeleton) := by
  have hperm : Form.behind.spell t.skeleton = Form.behind.spell u.skeleton →
      t.minusOperands.Perm u.minusOperands := by
    rw [← ht.minusOperands_skeleton, ← hu.minusOperands_skeleton]
    exact ht.skeletal.perm_of_behind hu.skeletal
  have hsame : Form.behind.spell t.skeleton = Form.behind.spell u.skeleton →
      t.minusOperands = u.minusOperands → t.skeleton = u.skeleton := by
    rw [← ht.minusOperands_skeleton, ← hu.minusOperands_skeleton]
    exact ht.skeletal.eq_of_behind hu.skeletal
  have hsorts : ∀ n ∈ t.minusOperands, n = 1 ∨ n = 2 := by
    rw [← ht.minusOperands_skeleton]
    exact ht.skeletal.mem_minusOperands
  refine ⟨_, _, Form.behind.write_eq ht, Form.behind.write_eq hu, ⟨fun h => hsame h.1 h.2, ?_⟩,
    hperm, fun h hmissing => hsame h ?_⟩
  · intro h
    rw [← ht.minusOperands_skeleton, ← hu.minusOperands_skeleton, h]
    exact ⟨rfl, rfl⟩
  · rcases hmissing with hone | htwo
    · refine eq_of_perm_const (m := 2) (fun n hn => (hsorts n hn).resolve_left ?_) (hperm h)
      rintro rfl
      exact hone hn
    · refine eq_of_perm_const (m := 1) (fun n hn => (hsorts n hn).resolve_right ?_) (hperm h)
      rintro rfl
      exact htwo hn

/-- A minus sign behind another one, and the same trees but for what is not written. -/
theorem behind_determined_minus_signs :
    ∃ t u, t = Node.binary (.unary "+" (.number "010")) "-" (.unary "-" (.number "020")) ∧
      u = Node.binary (.number "717") "-" (.unary "-" (.unary "+" (.number "828"))) ∧
      Calculation IsDigits t ∧ Calculation IsDigits u ∧ t.minusOperands = [1, 2] ∧
      ∃ x y, Form.behind.write true t = .ok x ∧ Form.behind.write true u = .ok y ∧
        (x = y ∧ t.minusOperands = u.minusOperands ↔ t.skeleton = u.skeleton) ∧
        (x = y → t.minusOperands.Perm u.minusOperands) ∧
        (x = y → 1 ∉ t.minusOperands ∨ 2 ∉ t.minusOperands → t.skeleton = u.skeleton) := by
  have hnumber (lexeme : String) (h : IsDigits (Form.numberText lexeme)) :
      Calculation IsDigits (.number lexeme) := .number h
  have ht := (hnumber "010" (by decide)).plus.difference (hnumber "020" (by decide)).minus
  have hu := (hnumber "717" (by decide)).difference (hnumber "828" (by decide)).plus.minus
  exact ⟨_, _, rfl, rfl, ht, hu, rfl, behind_determined ht hu⟩

end BraceScript
