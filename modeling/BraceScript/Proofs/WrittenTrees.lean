import Mathlib
import BraceScript.Proofs.Delimiters
import BraceScript.Proofs.Shapes

/-! # Written trees — the written form of a tree determines it

    The written form of a node is the name of its kind and its fields, each behind a label.  Names,
    numbers and operators stand in it as they are, parts and lists of parts in their own written
    forms, and parts that are left out as a word of their own.  All the same it can be read in one
    way only: the kind says which fields follow, and a field ends where a comma, a parenthesis or a
    bracket stands that is not its own.

    * `Node.fields`, `Node.rebuild`: a node is made again from its kind and fields;
    * `Written`: trees whose names, numbers and operators have no delimiter in them;
    * `Written.cut`: two written forms that texts begin with;
    * `text_determines_tree`: two parsed trees with one written form. -/

namespace BraceScript

/-! ## Kinds and fields -/

/-- How a field is written. -/
inductive Manner where
  | part | listed | optional | plain | quoted
  deriving DecidableEq, Repr

/-- What a field of a node holds. -/
inductive Field where
  | part (node : Node)
  /-- A list that is written in any case. -/
  | listed (nodes : List Node)
  /-- A list that may be left out. -/
  | optional (nodes : List Node)
  /-- A text that is written as it is. -/
  | plain (text : String)
  /-- A text that is written between quotes. -/
  | quoted (text : String)

namespace Field

/-- How a field is written. -/
def manner : Field → Manner
  | .part _ => .part
  | .listed _ => .listed
  | .optional _ => .optional
  | .plain _ => .plain
  | .quoted _ => .quoted

/-- The written form of a field. -/
def text : Field → String
  | .part node => node.text
  | .listed nodes => Text.bracketed (Node.texts nodes)
  | .optional nodes => Node.optionalList (Node.texts nodes)
  | .plain text => text
  | .quoted text => Text.quoted text

/-- The trees in a field. -/
def nodes : Field → List Node
  | .part node => [node]
  | .listed nodes | .optional nodes => nodes
  | .plain _ | .quoted _ => []

/-- The texts in a field that are written as they are. -/
def words : Field → List String
  | .plain text => [text]
  | _ => []

end Field

namespace Node

/-- The fields of a node with their labels, in the order in which they are written. -/
def fields : Node → List (String × Field)
  | .absent | .bare _ | .incomplete _ _ | .skip | .stop => []
  | .program body => [("block", .part body)]
  | .block statements => [("statements", .optional statements)]
  | .typeName name | .identifier name => [("name", .plain name)]
  | .variableDecl type names values =>
      [("type", .part type), ("identifiers", .listed names), ("expressions", .optional values)]
  | .constantDecl type names values =>
      [("type", .part type), ("identifiers", .listed names), ("expressions", .listed values)]
  | .assignment target value => [("identifier", .part target), ("expression", .part value)]
  | .give value | .display value | .truth value => [("expression", .part value)]
  | .elif condition body | .whileLoop condition body =>
      [("condition", .part condition), ("block", .part body)]
  | .otherwise body => [("block", .part body)]
  | .ifElse condition body elifs alternative =>
      [("condition", .part condition), ("block", .part body), ("elifs", .optional elifs),
        ("else_", .part alternative)]
  | .forLoop initial termination step body =>
      [("initial_assignment", .part initial), ("termination_expression", .part termination),
        ("step_expression", .part step), ("block", .part body)]
  | .parameter name type => [("identifier", .part name), ("type", .part type)]
  | .functionDecl name parameters giveType body =>
      [("identifier", .part name), ("parameters", .optional parameters),
        ("give_type", .part giveType), ("block", .part body)]
  | .procedureDecl name parameters body =>
      [("identifier", .part name), ("parameters", .optional parameters), ("block", .part body)]
  | .functionCall callee arguments | .procedureCall callee arguments =>
      [("identifier", .part callee), ("arguments", .optional arguments)]
  | .binary left operator right =>
      [("left", .part left), ("operator", .plain operator), ("right", .part right)]
  | .unary operator operand => [("operator", .plain operator), ("operand", .part operand)]
  | .logical left operator right =>
      [("left", .part left), ("logical_operator", .plain operator), ("right", .part right)]
  | .negation operator operand =>
      [("logical_operator", .plain operator), ("operand", .part operand)]
  | .comparison left comparator right =>
      [("left", .part left), ("comparator", .plain comparator), ("right", .part right)]
  | .number lexeme | .boolean lexeme => [("lexeme", .plain lexeme)]
  | .string lexeme => [("lexeme", .quoted lexeme)]

/-- Whether a node is written as its kind and its fields. -/
def isShown : Node → Bool
  | .absent | .bare _ | .incomplete _ _ => false
  | _ => true

/-- The labels of a node's fields, and how they are written. -/
def outline (node : Node) : List (String × Manner) :=
  node.fields.map fun field => (field.1, field.2.manner)

/-- The part in the field of the given number. -/
def partAt (fields : List Field) (i : Nat) : Node :=
  match fields[i]? with
  | some (.part node) => node
  | _ => .absent

/-- The list in the field of the given number. -/
def listAt (fields : List Field) (i : Nat) : List Node :=
  match fields[i]? with
  | some (.listed nodes) | some (.optional nodes) => nodes
  | _ => []

/-- The text in the field of the given number. -/
def textAt (fields : List Field) (i : Nat) : String :=
  match fields[i]? with
  | some (.plain text) | some (.quoted text) => text
  | _ => ""

/-- The kinds that are written with their fields, and how a node of each is made from them. -/
def makers : List (String × (List Field → Node)) :=
  [("NodeProgram", fun fs => .program (partAt fs 0)),
   ("NodeBlock", fun fs => .block (listAt fs 0)),
   ("NodeType", fun fs => .typeName (textAt fs 0)),
   ("NodeIdentifier", fun fs => .identifier (textAt fs 0)),
   ("NodeVariableDeclaration", fun fs => .variableDecl (partAt fs 0) (listAt fs 1) (listAt fs 2)),
   ("NodeConstantDeclaration", fun fs => .constantDecl (partAt fs 0) (listAt fs 1) (listAt fs 2)),
   ("NodeAssignmentStatement", fun fs => .assignment (partAt fs 0) (partAt fs 1)),
   ("NodeGiveStatement", fun fs => .give (partAt fs 0)),
   ("NodeShowStatement", fun fs => .display (partAt fs 0)),
   ("NodeElif", fun fs => .elif (partAt fs 0) (partAt fs 1)),
   ("NodeElse", fun fs => .otherwise (partAt fs 0)),
   ("NodeIfStatement", fun fs => .ifElse (partAt fs 0) (partAt fs 1) (listAt fs 2) (partAt fs 3)),
   ("NodeWhileStatement", fun fs => .whileLoop (partAt fs 0) (partAt fs 1)),
   ("NodeForStatement",
     fun fs => .forLoop (partAt fs 0) (partAt fs 1) (partAt fs 2) (partAt fs 3)),
   ("NodeSkipStatement", fun _ => .skip),
   ("NodeStopStatement", fun _ => .stop),
   ("NodeParameter", fun fs => .parameter (partAt fs 0) (partAt fs 1)),
   ("NodeFunctionDeclaration",
     fun fs => .functionDecl (partAt fs 0) (listAt fs 1) (partAt fs 2) (partAt fs 3)),
   ("NodeProcedureDeclaration",
     fun fs => .procedureDecl (partAt fs 0) (listAt fs 1) (partAt fs 2)),
   ("NodeFunctionCall", fun fs => .functionCall (partAt fs 0) (listAt fs 1)),
   ("NodeProcedureCall", fun fs => .procedureCall (partAt fs 0) (listAt fs 1)),
   ("NodeBinaryArithmeticOperation", fun fs => .binary (partAt fs 0) (textAt fs 1) (partAt fs 2)),
   ("NodeUnaryArithmeticOperation", fun fs => .unary (textAt fs 0) (partAt fs 1)),
   ("NodeArithmeticExpressionAsBoolean", fun fs => .truth (partAt fs 0)),
   ("NodeBinaryBooleanOperation", fun fs => .logical (partAt fs 0) (textAt fs 1) (partAt fs 2)),
   ("NodeUnaryBooleanOperation", fun fs => .negation (textAt fs 0) (partAt fs 1)),
   ("NodeComparisonExpression", fun fs => .comparison (partAt fs 0) (textAt fs 1) (partAt fs 2)),
   ("NodeNumberLiteral", fun fs => .number (textAt fs 0)),
   ("NodeStringLiteral", fun fs => .string (textAt fs 0)),
   ("NodeBooleanLiteral", fun fs => .boolean (textAt fs 0))]

/-- The node of a kind with the given fields. -/
def rebuild (kind : String) (fs : List Field) : Node :=
  match makers.lookup kind with
  | some make => make fs
  | none => .absent

theorem mem_makers {kind : String} {make : List Field → Node} (h : makers.lookup kind = some make) :
    (kind, make) ∈ makers := by
  obtain ⟨before, after, heq, -⟩ := List.lookup_eq_some_iff.mp h
  rw [heq]
  exact List.mem_append_right _ List.mem_cons_self

/-- A node is made again from the name of its kind and what is in its fields. -/
theorem rebuild_fields {node : Node} (h : node.isShown = true) :
    rebuild node.kindName (node.fields.map Prod.snd) = node := by
  cases node with
  | absent | bare _ | incomplete _ _ => cases h
  | _ => rfl

/-- The kind of a node says which fields it has. -/
theorem outline_rebuild (kind : String) (fs gs : List Field) :
    (rebuild kind fs).outline = (rebuild kind gs).outline := by
  have hmakers : ∀ maker ∈ makers, (maker.2 fs).outline = (maker.2 gs).outline := by
    repeat' refine List.forall_mem_cons.mpr ⟨rfl, ?_⟩
    exact List.forall_mem_nil _
  simp only [rebuild]
  cases hmake : makers.lookup kind with
  | none => rfl
  | some make => exact hmakers _ (mem_makers hmake)

theorem outline_eq {a b : Node} (ha : a.isShown = true) (hb : b.isShown = true)
    (h : a.kindName = b.kindName) : a.outline = b.outline := by
  rw [← rebuild_fields ha, ← rebuild_fields hb, h]
  exact outline_rebuild _ _ _

theorem eq_of_fields {a b : Node} (ha : a.isShown = true) (hb : b.isShown = true)
    (hkind : a.kindName = b.kindName) (hfields : a.fields = b.fields) : a = b := by
  rw [← rebuild_fields ha, ← rebuild_fields hb, hkind, hfields]

/-- The name of a kind has no parenthesis, and is not the word for what is left out. -/
theorem kindName_begins {node : Node} (h : node.isShown = true) :
    node.kindName.toList.take 3 = ['N', 'o', 'd'] ∧
      ∀ c ∈ node.kindName.toList, (c == '(') = false := by
  have hkinds : ∀ kind ∈ makers.map Prod.fst, kind.toList.take 3 = ['N', 'o', 'd'] ∧
      kind.toList.any (· == '(') = false := by
    decide +kernel
  have hmade := rebuild_fields h
  rw [rebuild] at hmade
  cases hmake : makers.lookup node.kindName with
  | none =>
      rw [hmake] at hmade
      rw [← hmade] at h
      cases h
  | some make =>
      obtain ⟨hbegin, hopen⟩ := hkinds _ (List.mem_map.mpr ⟨_, mem_makers hmake, rfl⟩)
      exact ⟨hbegin, fun c hc => Bool.eq_false_iff.mpr (List.any_eq_false.mp hopen c hc)⟩

/-! ## Written forms, character by character -/

/-- Writes further fields and closes the node. -/
def addFields (written : String) : List (String × Field) → String
  | [] => written ++ ")"
  | (label, field) :: rest =>
      addFields (written ++ (", " ++ label ++ "=") ++ field.text) rest

/-- The kind and fields of a node as they are written. -/
def shownText (kind : String) : List (String × Field) → String
  | [] => kind ++ "()"
  | (label, field) :: rest => addFields ((kind ++ "(" ++ label ++ "=") ++ field.text) rest

-- both sides are the same characters, put together in the same order
theorem text_eq {node : Node} (h : node.isShown = true) :
    node.text = shownText node.kindName node.fields := by
  cases node with
  | absent | bare _ | incomplete _ _ => cases h
  | _ => rfl

/-- The fields behind the first one, up to the parenthesis that closes the node. -/
def moreFields : List (String × Field) → List Char
  | [] => [')']
  | (label, field) :: rest =>
      ',' :: ' ' :: (label.toList ++ '=' :: (field.text.toList ++ moreFields rest))

/-- The fields of a node up to the parenthesis that closes it. -/
def fieldChars : List (String × Field) → List Char
  | [] => [')']
  | (label, field) :: rest => label.toList ++ '=' :: (field.text.toList ++ moreFields rest)

theorem toList_addFields (written : String) (fs : List (String × Field)) :
    (addFields written fs).toList = written.toList ++ moreFields fs := by
  induction fs generalizing written with
  | nil => exact String.toList_append
  | cons field rest ih =>
      rw [addFields, ih]
      simp [moreFields]

theorem toList_text {node : Node} (h : node.isShown = true) :
    node.text.toList = node.kindName.toList ++ '(' :: fieldChars node.fields := by
  rw [text_eq h]
  cases node.fields with
  | nil => exact String.toList_append
  | cons field rest =>
      rw [shownText, toList_addFields]
      simp [fieldChars]

/-- The items of a list behind the first one, up to the bracket that closes it. -/
def moreItems : List Node → List Char
  | [] => [']']
  | node :: rest => ',' :: ' ' :: (node.text.toList ++ moreItems rest)

theorem toList_items (node : Node) (rest : List Node) :
    (", ".intercalate (texts (node :: rest))).toList ++ [']']
      = node.text.toList ++ moreItems rest := by
  induction rest generalizing node with
  | nil => simp [texts, moreItems]
  | cons other rest ih =>
      rw [texts, texts, String.intercalate_cons_cons, ← texts, String.toList_append,
        List.append_assoc, ih, String.toList_append, List.append_assoc]
      rfl

theorem toList_bracketed (node : Node) (rest : List Node) :
    (Text.bracketed (texts (node :: rest))).toList
      = '[' :: (node.text.toList ++ moreItems rest) := by
  rw [Text.bracketed, String.toList_append, String.toList_append, List.append_assoc]
  exact congrArg ('[' :: ·) (toList_items node rest)

end Node

/-! ## Cutting off what is written -/

/-- What can follow a field of a node or an item of a list. -/
def isDelimiter (c : Char) : Bool := c = ',' || c = ')' || c = ']'

/-- A text without delimiters. -/
def IsUnbroken (word : String) : Prop := ∀ c ∈ word.toList, isDelimiter c = false

instance (word : String) : Decidable (IsUnbroken word) :=
  List.decidableBAll (fun c => isDelimiter c = false) word.toList

/-- Trees in which no name, number or operator has a delimiter, and in which all that is not left
    out is written with its kind. -/
inductive Written : Node → Prop
  | absent : Written .absent
  | shown {node : Node} (hshown : node.isShown = true)
      (hwords : ∀ field ∈ node.fields, ∀ word ∈ field.2.words, IsUnbroken word)
      (hnodes : ∀ field ∈ node.fields, ∀ part ∈ field.2.nodes, Written part) : Written node

/-- A tree is told from every other by its written form, and so is where that ends, if a delimiter
    follows. -/
def Node.Cuts (a : Node) : Prop :=
  ∀ {b : Node} {rest rest' : List Char}, Written b → Text.Stops isDelimiter rest →
    Text.Stops isDelimiter rest' → a.text.toList ++ rest = b.text.toList ++ rest' →
    a = b ∧ rest = rest'

theorem Written.begins {node : Node} (h : Written node) (rest : List Char) :
    (node.text.toList ++ rest).head? = some 'N' := by
  cases h with
  | absent => rfl
  | shown hshown =>
      rw [Node.toList_text hshown, ← List.take_append_drop 3 node.kindName.toList,
        (Node.kindName_begins hshown).1]
      rfl

/-- What is left out is not written as a node is. -/
theorem Node.text_ne_none {node : Node} (h : node.isShown = true) (rest rest' : List Char) :
    node.text.toList ++ rest ≠ Node.absent.text.toList ++ rest' := by
  rw [Node.toList_text h, ← List.take_append_drop 3 node.kindName.toList,
    (Node.kindName_begins h).1]
  intro heq
  have hthird : some 'd' = some 'n' := congrArg (fun cs : List Char => cs[2]?) heq
  cases hthird

/-! ### Lists -/

theorem stops_moreItems (xs : List Node) (rest : List Char) :
    Text.Stops isDelimiter (Node.moreItems xs ++ rest) := by
  cases xs with
  | nil => exact Text.stops_cons rfl _
  | cons x xs => exact Text.stops_cons rfl _

section

variable {xs ys : List Node} {rest rest' : List Char}

theorem cut_moreItems (hxs : ∀ x ∈ xs, x.Cuts) (hys : ∀ y ∈ ys, Written y)
    (h : Node.moreItems xs ++ rest = Node.moreItems ys ++ rest') : xs = ys ∧ rest = rest' := by
  induction xs generalizing ys with
  | nil =>
      cases ys with
      | nil => exact ⟨rfl, (List.cons.inj h).2⟩
      | cons y ys => exact absurd (List.cons.inj h).1 (by decide)
  | cons x xs ih =>
      cases ys with
      | nil => exact absurd (List.cons.inj h).1 (by decide)
      | cons y ys =>
          obtain ⟨hx, hcuts⟩ := List.forall_mem_cons.mp hxs
          obtain ⟨hy, hwritten⟩ := List.forall_mem_cons.mp hys
          simp only [Node.moreItems, List.cons_append, List.append_assoc, List.cons.injEq,
            true_and] at h
          obtain ⟨rfl, hmore⟩ := hx hy (stops_moreItems _ _) (stops_moreItems _ _) h
          obtain ⟨rfl, hrest⟩ := ih hcuts hwritten hmore
          exact ⟨rfl, hrest⟩

/-- An empty list is not written as one that has items. -/
theorem bracketed_ne_empty {x : Node} (hx : Written x) (xs : List Node) (rest rest' : List Char) :
    (Text.bracketed (Node.texts (x :: xs))).toList ++ rest
      ≠ (Text.bracketed (Node.texts [])).toList ++ rest' := by
  rw [Node.toList_bracketed, List.cons_append, List.append_assoc]
  intro h
  have hhead := congrArg List.head? (List.cons.inj h).2
  rw [hx.begins] at hhead
  cases hhead

theorem cut_bracketed (hxs : ∀ x ∈ xs, Written x ∧ x.Cuts) (hys : ∀ y ∈ ys, Written y)
    (h : (Text.bracketed (Node.texts xs)).toList ++ rest
      = (Text.bracketed (Node.texts ys)).toList ++ rest') : xs = ys ∧ rest = rest' := by
  cases xs with
  | nil =>
      cases ys with
      | nil => exact ⟨rfl, List.append_cancel_left h⟩
      | cons y ys => exact absurd h.symm (bracketed_ne_empty (hys y List.mem_cons_self) ys _ _)
  | cons x xs =>
      obtain ⟨⟨hwritten, hx⟩, hcuts⟩ := List.forall_mem_cons.mp hxs
      cases ys with
      | nil => exact absurd h (bracketed_ne_empty hwritten xs _ _)
      | cons y ys =>
          obtain ⟨hy, hothers⟩ := List.forall_mem_cons.mp hys
          rw [Node.toList_bracketed, Node.toList_bracketed, List.cons_append, List.cons_append,
            List.append_assoc, List.append_assoc] at h
          obtain ⟨rfl, hmore⟩ :=
            hx hy (stops_moreItems _ _) (stops_moreItems _ _) (List.cons.inj h).2
          obtain ⟨rfl, hrest⟩ := cut_moreItems (fun x hmem => (hcuts x hmem).2) hothers hmore
          exact ⟨rfl, hrest⟩

/-- A list that is left out is not written as one in brackets. -/
theorem cut_optional (hxs : ∀ x ∈ xs, Written x ∧ x.Cuts) (hys : ∀ y ∈ ys, Written y)
    (h : (Node.optionalList (Node.texts xs)).toList ++ rest
      = (Node.optionalList (Node.texts ys)).toList ++ rest') : xs = ys ∧ rest = rest' := by
  cases xs with
  | nil =>
      cases ys with
      | nil => exact ⟨rfl, List.append_cancel_left h⟩
      | cons y ys =>
          have hlist : 'N' :: _ = (Text.bracketed (Node.texts (y :: ys))).toList ++ rest' := h
          rw [Node.toList_bracketed] at hlist
          exact absurd (List.cons.inj hlist).1 (by decide)
  | cons x xs =>
      cases ys with
      | nil =>
          have hlist : (Text.bracketed (Node.texts (x :: xs))).toList ++ rest = 'N' :: _ := h
          rw [Node.toList_bracketed] at hlist
          exact absurd (List.cons.inj hlist).1 (by decide)
      | cons y ys => exact cut_bracketed hxs hys h

end

/-! ### Fields -/

namespace Field

/-- A field of a written tree. -/
def Sound (field : Field) : Prop :=
  (∀ word ∈ field.words, IsUnbroken word) ∧ ∀ part ∈ field.nodes, Written part

theorem cut {x y : Field} {rest rest' : List Char} (hx : x.Sound) (hcuts : ∀ n ∈ x.nodes, n.Cuts)
    (hy : y.Sound) (hmanner : x.manner = y.manner) (hrest : Text.Stops isDelimiter rest)
    (hrest' : Text.Stops isDelimiter rest') (h : x.text.toList ++ rest = y.text.toList ++ rest') :
    x = y ∧ rest = rest' := by
  have hboth : ∀ n ∈ x.nodes, Written n ∧ n.Cuts := fun n hn => ⟨hx.2 n hn, hcuts n hn⟩
  cases x with
  | part a =>
      cases y with
      | part b =>
          have hb : Written b := hy.2 b List.mem_cons_self
          obtain ⟨rfl, heq⟩ := hcuts a List.mem_cons_self hb hrest hrest' h
          exact ⟨rfl, heq⟩
      | _ => cases hmanner
  | listed xs =>
      cases y with
      | listed ys =>
          obtain ⟨rfl, heq⟩ := cut_bracketed hboth hy.2 h
          exact ⟨rfl, heq⟩
      | _ => cases hmanner
  | optional xs =>
      cases y with
      | optional ys =>
          obtain ⟨rfl, heq⟩ := cut_optional hboth hy.2 h
          exact ⟨rfl, heq⟩
      | _ => cases hmanner
  | plain word =>
      cases y with
      | plain word' =>
          obtain ⟨hword, heq⟩ := Text.cut_word (hx.1 word List.mem_cons_self)
            (hy.1 word' List.mem_cons_self) hrest hrest' h
          rw [String.toList_injective hword]
          exact ⟨rfl, heq⟩
      | _ => cases hmanner
  | quoted s =>
      cases y with
      | quoted s' =>
          obtain ⟨rfl, heq⟩ := Text.cut_quoted h
          exact ⟨rfl, heq⟩
      | _ => cases hmanner

end Field

theorem stops_moreFields (fs : List (String × Field)) (rest : List Char) :
    Text.Stops isDelimiter (Node.moreFields fs ++ rest) := by
  cases fs with
  | nil => exact Text.stops_cons rfl _
  | cons f fs => exact Text.stops_cons rfl _

section

variable {fs gs : List (String × Field)} {rest rest' : List Char}

/-- Fields with the same labels, written in the same manner, are the same where the texts are. -/
theorem cut_moreFields (hfs : ∀ f ∈ fs, f.2.Sound ∧ ∀ n ∈ f.2.nodes, n.Cuts)
    (hgs : ∀ g ∈ gs, g.2.Sound)
    (houtline : fs.map (fun f => (f.1, f.2.manner)) = gs.map fun g => (g.1, g.2.manner))
    (h : Node.moreFields fs ++ rest = Node.moreFields gs ++ rest') : fs = gs ∧ rest = rest' := by
  induction fs generalizing gs with
  | nil =>
      cases gs with
      | nil => exact ⟨rfl, (List.cons.inj h).2⟩
      | cons g gs => cases houtline
  | cons f fs ih =>
      cases gs with
      | nil => cases houtline
      | cons g gs =>
          obtain ⟨label, x⟩ := f
          obtain ⟨label', y⟩ := g
          obtain ⟨⟨hx, hcuts⟩, hothers⟩ := List.forall_mem_cons.mp hfs
          obtain ⟨hy, hothers'⟩ := List.forall_mem_cons.mp hgs
          obtain ⟨hfirst, hlabels⟩ := List.cons.inj houtline
          obtain ⟨rfl, hmanner⟩ := Prod.mk.inj hfirst
          simp only [Node.moreFields, List.cons_append, List.append_assoc, List.cons.injEq,
            true_and, List.append_cancel_left_eq] at h
          obtain ⟨rfl, hmore⟩ :=
            Field.cut hx hcuts hy hmanner (stops_moreFields _ _) (stops_moreFields _ _) h
          obtain ⟨rfl, hrest⟩ := ih hothers hothers' hlabels hmore
          exact ⟨rfl, hrest⟩

theorem cut_fieldChars (hfs : ∀ f ∈ fs, f.2.Sound ∧ ∀ n ∈ f.2.nodes, n.Cuts)
    (hgs : ∀ g ∈ gs, g.2.Sound)
    (houtline : fs.map (fun f => (f.1, f.2.manner)) = gs.map fun g => (g.1, g.2.manner))
    (h : Node.fieldChars fs ++ rest = Node.fieldChars gs ++ rest') : fs = gs ∧ rest = rest' := by
  -- the first field is written as the others are, but for the comma and the blank in front of it
  refine cut_moreFields hfs hgs houtline ?_
  cases fs with
  | nil =>
      cases gs with
      | nil => exact h
      | cons g gs => cases houtline
  | cons f fs =>
      cases gs with
      | nil => cases houtline
      | cons g gs => exact congrArg (fun cs => ',' :: ' ' :: cs) h

end

/-- The written form of a tree can be told from that of every other, and so can where it ends. -/
theorem Written.cut {a : Node} (ha : Written a) : a.Cuts := by
  intro b rest rest' hb hrest hrest' h
  induction ha generalizing b rest rest' with
  | absent =>
      cases hb with
      | absent => exact ⟨rfl, List.append_cancel_left h⟩
      | shown hshown => exact absurd h.symm (Node.text_ne_none hshown _ _)
  | @shown a hshown hwords hnodes ih =>
      cases hb with
      | absent => exact absurd h (Node.text_ne_none hshown _ _)
      | shown hshown' hwords' hnodes' =>
          rw [Node.toList_text hshown, Node.toList_text hshown', List.append_assoc,
            List.append_assoc] at h
          -- the kind ends at the parenthesis, and says how to read the fields
          obtain ⟨hname, hfields⟩ := Text.cut_word (Node.kindName_begins hshown).2
            (Node.kindName_begins hshown').2 (Text.stops_cons rfl _) (Text.stops_cons rfl _) h
          have hkind := String.toList_injective hname
          obtain ⟨heq, hrest⟩ := cut_fieldChars
            (fun f hf => ⟨⟨hwords f hf, hnodes f hf⟩, fun n hn => ih f hf n hn⟩)
            (fun g hg => ⟨hwords' g hg, hnodes' g hg⟩) (Node.outline_eq hshown hshown' hkind)
            (List.cons.inj hfields).2
          exact ⟨Node.eq_of_fields hshown hshown' hkind heq, hrest⟩

/-! ## The trees of programs -/

theorem unbroken_of {p : Char → Bool} {word : String}
    (hp : p ',' = false ∧ p ')' = false ∧ p ']' = false) (h : ∀ c ∈ word.toList, p c = true) :
    IsUnbroken word := by
  intro c hc
  have hpc := h c hc
  rw [isDelimiter, Bool.or_eq_false_iff, Bool.or_eq_false_iff, decide_eq_false_iff_not,
    decide_eq_false_iff_not, decide_eq_false_iff_not]
  refine ⟨⟨?_, ?_⟩, ?_⟩
  · rintro rfl
    exact absurd (hp.1.symm.trans hpc) (by decide)
  · rintro rfl
    exact absurd (hp.2.1.symm.trans hpc) (by decide)
  · rintro rfl
    exact absurd (hp.2.2.symm.trans hpc) (by decide)

theorem IsWordy.unbroken {name : String} (h : IsWordy name.toList) : IsUnbroken name := by
  refine unbroken_of (p := isWordPart) (by decide) ?_
  cases hname : name.toList with
  | nil => exact fun c hc => absurd hc List.not_mem_nil
  | cons first more =>
      rw [hname] at h
      exact List.forall_mem_cons.mpr ⟨by rw [isWordPart, h.1, Bool.or_true], h.2⟩

theorem IsNumeral.unbroken {lexeme : String} (h : IsNumeral lexeme.toList) : IsUnbroken lexeme := by
  refine unbroken_of (p := fun c => isDigit c || c == '.') (by decide) ?_
  rcases h with ⟨-, hdigits⟩ | ⟨whole, fraction, heq, -, hwhole, hfraction⟩
  · exact fun c hc => by simp [hdigits c hc]
  · intro c hc
    rw [heq, List.mem_append, List.mem_cons] at hc
    rcases hc with hc | rfl | hc
    · simp [hwhole c hc]
    · rfl
    · simp [hfraction c hc]

/-- No sign or word of the language but two has a delimiter in it. -/
theorem Kind.unbroken {k : Kind} {p : Kind → Bool}
    (hp : p .comma = false ∧ p .rightParenthesis = false) (hk : p k = true) :
    IsUnbroken k.text := by
  have htexts : ∀ k ∈ Kind.all, k = .comma ∨ k = .rightParenthesis ∨ IsUnbroken k.text := by
    decide +kernel
  rcases htexts k (Kind.mem_all k) with rfl | rfl | h
  · exact absurd (hp.1.symm.trans hk) (by decide)
  · exact absurd (hp.2.symm.trans hk) (by decide)
  · exact h

/-- Fields of a written tree. -/
def Sounds (fs : List (String × Field)) : Prop := ∀ f ∈ fs, f.2.Sound

namespace Sounds

variable {fs : List (String × Field)} {label : String}

theorem nil : Sounds [] := List.forall_mem_nil _

theorem part {node : Node} (h : Written node) (hfs : Sounds fs) :
    Sounds ((label, .part node) :: fs) :=
  List.forall_mem_cons.mpr ⟨⟨List.forall_mem_nil _, List.forall_mem_singleton.mpr h⟩, hfs⟩

theorem listed {nodes : List Node} (h : ∀ n ∈ nodes, Written n) (hfs : Sounds fs) :
    Sounds ((label, .listed nodes) :: fs) :=
  List.forall_mem_cons.mpr ⟨⟨List.forall_mem_nil _, h⟩, hfs⟩

theorem optional {nodes : List Node} (h : ∀ n ∈ nodes, Written n) (hfs : Sounds fs) :
    Sounds ((label, .optional nodes) :: fs) :=
  List.forall_mem_cons.mpr ⟨⟨List.forall_mem_nil _, h⟩, hfs⟩

theorem plain {word : String} (h : IsUnbroken word) (hfs : Sounds fs) :
    Sounds ((label, .plain word) :: fs) :=
  List.forall_mem_cons.mpr ⟨⟨List.forall_mem_singleton.mpr h, List.forall_mem_nil _⟩, hfs⟩

theorem quoted (text : String) (hfs : Sounds fs) : Sounds ((label, .quoted text) :: fs) :=
  List.forall_mem_cons.mpr ⟨⟨List.forall_mem_nil _, List.forall_mem_nil _⟩, hfs⟩

end Sounds

theorem Written.of {node : Node} (hshown : node.isShown = true) (h : Sounds node.fields) :
    Written node :=
  .shown hshown (fun f hf => (h f hf).1) fun f hf => (h f hf).2

theorem Shaped.written {p : Phrase} {node : Node} (h : Shaped p node) : Written node := by
  induction h with
  | name _ hwordy => exact .of rfl (.plain hwordy.unbroken .nil)
  | type hk => exact .of rfl (.plain (Kind.unbroken (by decide) hk) .nil)
  | parameter _ _ htype hname => exact .of rfl (.part hname (.part htype .nil))
  | identifier _ ih | ofArithmetic _ ih | ofBoolean _ _ ih | step _ ih => exact ih
  | number h => exact .of rfl (.plain h.unbroken .nil)
  | string _ => exact .of rfl (.quoted _ .nil)
  | functionCall _ _ hcallee harguments | procedureCall _ _ hcallee harguments =>
      exact .of rfl (.part hcallee (.optional harguments .nil))
  | binary hk _ _ hleft hright =>
      exact .of rfl (.part hleft (.plain (Kind.unbroken (by decide) hk) (.part hright .nil)))
  | unary hk _ hoperand =>
      exact .of rfl (.plain (Kind.unbroken (by decide) hk) (.part hoperand .nil))
  | boolean h =>
      refine .of rfl (.plain ?_ .nil)
      rcases h with rfl | rfl <;> decide
  | logical hk _ _ hleft hright =>
      exact .of rfl (.part hleft (.plain (Kind.unbroken (by decide) hk) (.part hright .nil)))
  | negation _ hoperand => exact .of rfl (.plain (by decide) (.part hoperand .nil))
  | comparison hk _ _ _ hleft hright =>
      exact .of rfl (.part hleft (.plain (Kind.unbroken (by decide) hk) (.part hright .nil)))
  | truth _ _ h | give _ h | display _ h => exact .of rfl (.part h .nil)
  | noStep | noAlternative => exact .absent
  | variableDecl _ _ _ _ _ htype hnames hvalues =>
      exact .of rfl (.part htype (.listed hnames (.optional hvalues .nil)))
  | constantDecl _ _ _ _ _ htype hnames hvalues =>
      exact .of rfl (.part htype (.listed hnames (.listed hvalues .nil)))
  | assignment _ _ htarget hvalue => exact .of rfl (.part htarget (.part hvalue .nil))
  | giveNothing => exact .of rfl (.part .absent .nil)
  | functionDecl _ _ _ _ hname hparameters htype hbody =>
      exact .of rfl (.part hname (.optional hparameters (.part htype (.part hbody .nil))))
  | procedureDecl _ _ _ hname hparameters hbody =>
      exact .of rfl (.part hname (.optional hparameters (.part hbody .nil)))
  | ifElse _ _ _ _ hcondition hbody helifs halternative =>
      exact .of rfl (.part hcondition (.part hbody (.optional helifs (.part halternative .nil))))
  | whileLoop _ _ hcondition hbody | elif _ _ hcondition hbody =>
      exact .of rfl (.part hcondition (.part hbody .nil))
  | forLoop _ _ _ _ _ htarget hvalue htermination hstep hbody =>
      have hinitial : Written (.assignment _ _) := .of rfl (.part htarget (.part hvalue .nil))
      exact .of rfl (.part hinitial (.part htermination (.part hstep (.part hbody .nil))))
  | skip | stop => exact .of rfl .nil
  | block _ hstatements => exact .of rfl (.optional hstatements .nil)
  | otherwise _ hbody | program _ hbody => exact .of rfl (.part hbody .nil)

/-- Two parsed trees with the same written form are the same tree. -/
theorem text_determines_tree {source source' : String} {tree tree' : Node}
    (h : parse source = .ok tree) (h' : parse source' = .ok tree')
    (htext : tree.text = tree'.text) : tree = tree' := by
  have hcut := (parse_shaped h).written.cut (parse_shaped h').written (Text.stops_nil _)
    (Text.stops_nil _) (by rw [htext])
  exact hcut.1

/-- A string with delimiters and quotes in it, a give and an else branch that are left out, and a
    block without statements, written down from two texts. -/
theorem text_determines_tree_respelled :
    ∃ tree tree',
      parse "\x7bproc p() \x7bgive\n\x7d\nif (')]\\', ') \x7b\x7d\n\x7d" = .ok tree ∧
      parse "\x7b\n\n proc p()\x7b give\x7d # none\nif ((')]\\', '))\x7b\n\x7d\x7d" = .ok tree' ∧
      tree.text = "NodeProgram(block=NodeBlock(statements=[NodeProcedureDeclaration(identifier="
        ++ "NodeIdentifier(name=p), parameters=None, block=NodeBlock(statements=["
        ++ "NodeGiveStatement(expression=None)])), NodeIfStatement(condition="
        ++ "NodeArithmeticExpressionAsBoolean(expression=NodeStringLiteral(lexeme=\"')]', '\")), "
        ++ "block=NodeBlock(statements=None), elifs=None, else_=None)]))" ∧
      tree'.text = tree.text ∧ tree = tree' := by
  let procedure := Node.procedureDecl (.identifier "p") [] (.block [.give .absent])
  let branch := Node.ifElse (.truth (.string "')]', '")) (.block []) [] .absent
  let tree := Node.program (.block [procedure, branch])
  have h : parse "\x7bproc p() \x7bgive\n\x7d\nif (')]\\', ') \x7b\x7d\n\x7d" = .ok tree := by cbv
  have h' : parse "\x7b\n\n proc p()\x7b give\x7d # none\nif ((')]\\', '))\x7b\n\x7d\x7d"
      = .ok tree := by cbv
  exact ⟨tree, tree, h, h', by decide +kernel, rfl, text_determines_tree h h' rfl⟩

end BraceScript
