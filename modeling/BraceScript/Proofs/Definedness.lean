import Mathlib
import BraceScript.Proofs.Containment
import BraceScript.Proofs.Following
import BraceScript.Proofs.Parts

/-! # Definedness — what is read has been set

    The analyzer looks names up in nested scopes; a run keeps all variables of a call in one
    record, which starts as a copy of the caller's.  A name that the analyzer knows may still have
    no value when it is read: a routine may be called through another of the same name, from a
    place where its own scopes are not around; a stop may leave a call; a routine may be read
    like a variable; an initial value may read the name that it is for.  Without these four, every
    variable and constant of every scope around a running part is set in the top record.

    * `Scoped.of_define`: an initial value that does not read its own name is well scoped without
      that name;
    * `Follower.defined`: the top record covers the scopes of what runs;
    * `names_defined`: so every name that is read has a value. -/

namespace BraceScript

open Eval (perform)

/-! ## Names of programs -/

namespace Node

/-- The name under which a declaration of a routine enters it. -/
def declaredName? : RecordKind → Node → Option String
  | .function, .functionDecl (.identifier name) _ _ _ => some name
  | .procedure, .procedureDecl (.identifier name) _ _ => some name
  | _, _ => none

/-- The names of the routines of a kind that are declared in a program, one for each declaration. -/
def declaredNames (tree : Node) (kind : RecordKind) : List String :=
  tree.parts.filterMap (declaredName? kind)

/-- Programs are not declared. -/
theorem declaredNames_program (tree : Node) : tree.declaredNames .program = [] :=
  List.filterMap_eq_nil_iff.mpr fun _ _ => rfl

mutual

/-- The names that an expression reads; those that it calls are not read. -/
def reads : Node → List String
  | .identifier name => [name]
  | .binary left _ right | .logical left _ right | .comparison left _ right =>
      left.reads ++ right.reads
  | .unary _ operand | .negation _ operand | .truth operand => operand.reads
  | .functionCall _ arguments => readsAll arguments
  | _ => []

/-- The names that several expressions read. -/
def readsAll : List Node → List String
  | [] => []
  | node :: rest => node.reads ++ readsAll rest

end

theorem reads_subset_readsAll {nodes : List Node} {node : Node} (h : node ∈ nodes) :
    node.reads ⊆ readsAll nodes := by
  induction nodes with
  | nil => exact nomatch h
  | cons first rest ih =>
      rw [readsAll]
      rcases List.mem_cons.mp h with rfl | h
      · exact List.subset_append_left _ _
      · exact List.Subset.trans (ih h) (List.subset_append_right _ _)

end Node

/-- A name that occurs once belongs to one element. -/
theorem eq_of_count_flatMap {α : Type} {f : α → List String} {l : List α} {x : String}
    (h : (l.flatMap f).count x ≤ 1) {a b : α} (ha : a ∈ l) (hb : b ∈ l) (hax : x ∈ f a)
    (hbx : x ∈ f b) : a = b := by
  induction l with
  | nil => exact absurd ha List.not_mem_nil
  | cons c rest ih =>
      rw [List.flatMap_cons, List.count_append] at h
      have hnew : ∀ {d}, d ∈ rest → x ∈ f c → x ∉ f d := by
        intro d hd hc hdx
        have hfirst : 0 < (f c).count x := List.count_pos_iff.mpr hc
        have hlater : 0 < (rest.flatMap f).count x :=
          List.count_pos_iff.mpr (List.mem_flatMap.mpr ⟨d, hd, hdx⟩)
        omega
      rcases List.mem_cons.mp ha with rfl | hrestA <;> rcases List.mem_cons.mp hb with rfl | hrestB
      · rfl
      · exact absurd hbx (hnew hrestB hax)
      · exact absurd hax (hnew hrestA hbx)
      · exact ih (by omega) hrestA hrestB

theorem eq_of_count_filterMap {α : Type} {f : α → Option String} {l : List α} {x : String}
    (h : (l.filterMap f).count x ≤ 1) {a b : α} (ha : a ∈ l) (hb : b ∈ l)
    (hax : f a = some x) (hbx : f b = some x) : a = b := by
  rw [List.filterMap_eq_flatMap_toList] at h
  exact eq_of_count_flatMap h ha hb (Option.mem_toList.mpr hax) (Option.mem_toList.mpr hbx)

/-! ## Initial values -/

namespace Scopes

theorem lookup_define_self (s : Scopes) (symbol : Symbol) :
    (s.define symbol).lookup symbol.name = some symbol := by
  unfold lookup
  rw [toList_define, findIn, s.current.find?_define_self symbol]

theorem lookup_define_of_ne (s : Scopes) {symbol : Symbol} {name : String}
    (h : symbol.name ≠ name) : (s.define symbol).lookup name = s.lookup name := by
  unfold lookup
  rw [toList_define, findIn, s.current.find?_define_of_ne h]
  rfl

end Scopes

/-- An expression that does not read a name is well scoped without it. -/
theorem Scoped.of_define {fits : Symbol → Bool} {s s' : Scopes} {symbol : Symbol} {node : Node}
    (h : Scoped fits .expression (s.define symbol) node s') (hsymbol : symbol.isValue = true)
    (hreads : symbol.name ∉ node.reads) : Scoped fits .expression s node s := by
  generalize hc : Category.expression = c at h
  generalize ht : s.define symbol = t at h
  induction h with
  | identifier hword hfound hfits =>
      subst ht
      rw [Node.reads, List.mem_singleton] at hreads
      exact .identifier hword ((s.lookup_define_of_ne hreads).symm.trans hfound) hfits
  | number lexeme => exact .number lexeme
  | string lexeme => exact .string lexeme
  | boolean lexeme => exact .boolean lexeme
  | @functionCall _ name f arguments hfound hcount _ ih =>
      subst ht
      rw [Node.reads] at hreads
      refine .functionCall (f := f) ?_ hcount fun a ha =>
        ih a ha (fun hmem => hreads (Node.reads_subset_readsAll ha hmem)) rfl rfl
      -- the name that is called stands for a function, so it is not the symbol's
      have hne : symbol.name ≠ name := by
        rintro rfl
        rw [s.lookup_define_self] at hfound
        obtain rfl := Option.some.inj hfound
        exact nomatch hsymbol
      exact (s.lookup_define_of_ne hne).symm.trans hfound
  | binary operator _ _ ihleft ihright =>
      rw [Node.reads, List.mem_append, not_or] at hreads
      exact .binary operator (ihleft hreads.1 rfl ht) (ihright hreads.2 rfl ht)
  | logical operator _ _ ihleft ihright =>
      rw [Node.reads, List.mem_append, not_or] at hreads
      exact .logical operator (ihleft hreads.1 rfl ht) (ihright hreads.2 rfl ht)
  | comparison comparator _ _ ihleft ihright =>
      rw [Node.reads, List.mem_append, not_or] at hreads
      exact .comparison comparator (ihleft hreads.1 rfl ht) (ihright hreads.2 rfl ht)
  | unary operator _ ih => exact .unary operator (ih hreads rfl ht)
  | negation operator _ ih => exact .negation operator (ih hreads rfl ht)
  | truth _ ih => exact .truth (ih hreads rfl ht)
  | _ => exact nomatch hc

/-! ## Declared routines -/

/-- A program declares a routine of a kind under a name. -/
def Node.Declares (tree : Node) (kind : RecordKind) (name : String) (p : Routine) : Prop :=
  ∃ decl ∈ tree.parts, ∃ entered, decl.routineSymbol? = some entered ∧
    entered.routine? kind = some p ∧ entered.name = name

namespace Node

variable {tree decl : Node} {kind : RecordKind} {name : String} {p : Routine}

/-- What a declaration looks like that enters a routine. -/
theorem routineSymbol?_inv {entered : Symbol} (h : decl.routineSymbol? = some entered)
    (hp : entered.routine? kind = some p) :
    decl.declaredName? kind = some entered.name ∧
      ((∃ name parameters type, decl = .functionDecl name parameters type p.body) ∨
        ∃ name parameters, decl = .procedureDecl name parameters p.body) := by
  unfold routineSymbol? at h
  split at h
  · split at h
    · obtain rfl := Option.some.inj h
      cases kind <;> cases hp
      exact ⟨rfl, .inl ⟨_, _, _, rfl⟩⟩
    · exact nomatch h
  · split at h
    · obtain rfl := Option.some.inj h
      cases kind <;> cases hp
      exact ⟨rfl, .inr ⟨_, _, rfl⟩⟩
    · exact nomatch h
  · exact nomatch h

theorem Declares.body_mem (h : tree.Declares kind name p) : p.body ∈ tree.parts := by
  obtain ⟨decl, hdecl, entered, hentered, hp, -⟩ := h
  refine mem_parts_of_mem_children hdecl ?_
  rcases (routineSymbol?_inv hentered hp).2 with ⟨_, _, _, rfl⟩ | ⟨_, _, rfl⟩ <;> simp [children]

/-- A name that is declared once stands for one routine. -/
theorem Declares.unique (hname : (tree.declaredNames kind).count name ≤ 1) {p' : Routine}
    (h : tree.Declares kind name p) (h' : tree.Declares kind name p') : p = p' := by
  obtain ⟨decl, hdecl, entered, hentered, hp, rfl⟩ := h
  obtain ⟨decl', hdecl', entered', hentered', hp', hsame⟩ := h'
  have hfirst := (routineSymbol?_inv hentered hp).1
  have hsecond := (routineSymbol?_inv hentered' hp').1
  rw [hsame] at hsecond
  -- both declarations enter the same name, so they are one
  obtain rfl := eq_of_count_filterMap hname hdecl hdecl' hfirst hsecond
  obtain rfl := Option.some.inj (hentered.symm.trans hentered')
  exact Option.some.inj (hp.symm.trans hp')

end Node

/-- The routines that scopes know are declared in a program. -/
def Scopes.DeclaredIn (tree : Node) (s : Scopes) : Prop :=
  ∀ kind name symbol r, s.Knows name symbol → symbol.routine? kind = some r →
    tree.Declares kind name r.listed

/-- The routines in the tables are declared in a program. -/
def Machine.DeclaredIn (tree : Node) (m : Machine) : Prop :=
  ∀ kind name p, m.routine? kind name = some p → tree.Declares kind name p

namespace Scopes.DeclaredIn

variable {tree : Node} {s t : Scopes}

theorem le (h : s.DeclaredIn tree) (hle : t.Le s) : t.DeclaredIn tree := EachRoutine.le h hle

theorem define (h : s.DeclaredIn tree) (what : Declared) (name type : String) :
    (s.define (what.symbol name type)).DeclaredIn tree := EachRoutine.define h what name type

theorem enter (h : s.DeclaredIn tree) (label : String) (scopeKind : ScopeKind)
    (ps : List Parameter) : (s.enter label scopeKind ps).DeclaredIn tree :=
  EachRoutine.enter h label scopeKind ps

theorem declare (h : s.DeclaredIn tree) {kind : RecordKind} {symbol : Symbol} {r : Routine}
    (hr : symbol.routine? kind = some r) (hdeclares : tree.Declares kind symbol.name r.listed) :
    (s.define symbol).DeclaredIn tree := EachRoutine.routine h hr hdeclares

end Scopes.DeclaredIn

namespace Machine.DeclaredIn

variable {tree : Node} {m : Machine}

theorem declare (h : m.DeclaredIn tree) {decl : Node} {entered : Symbol}
    (hdecl : decl ∈ tree.parts) (hentered : decl.routineSymbol? = some entered) :
    (m.declare entered).DeclaredIn tree := by
  intro kind name p hp
  rcases routine?_declare hp with ⟨rfl, hnew⟩ | hold
  · exact ⟨decl, hdecl, entered, hentered, hnew, rfl⟩
  · exact h kind name p hold

end Machine.DeclaredIn

/-! ## Records that cover scopes -/

/-- The variables and constants that scopes know have values in a record. -/
def Record.Covers (r : Record) (s : Scopes) : Prop :=
  ∀ name symbol, s.Knows name symbol → symbol.isValue = true →
    ∃ v, r.get? name = some v ∧ v ≠ .nothing

namespace Record.Covers

variable {r : Record} {s t : Scopes} {name : String} {v : Value}

theorem le (h : r.Covers s) (hle : t.Le s) : r.Covers t :=
  fun name symbol hknows hvalue => h name symbol (hle name symbol hknows) hvalue

/-- What a record has is set to something else or left alone. -/
theorem get?_set (hv : v ≠ .nothing) {key : String}
    (h : key = name ∨ ∃ w, r.get? key = some w ∧ w ≠ .nothing) :
    ∃ w, (r.set name v).get? key = some w ∧ w ≠ .nothing := by
  by_cases hname : name = key
  · subst hname
    exact ⟨v, Table.get?_insert_self _ _ _, hv⟩
  · rcases h with rfl | ⟨w, hw, hsome⟩
    · exact absurd rfl hname
    · exact ⟨w, (Table.get?_insert_of_ne _ _ hname).trans hw, hsome⟩

theorem set (h : r.Covers s) (hv : v ≠ .nothing) : (r.set name v).Covers s :=
  fun key symbol hknows hvalue => get?_set hv (.inr (h key symbol hknows hvalue))

theorem define (h : r.Covers s) (hv : v ≠ .nothing) (what : Declared) (type : String) :
    (r.set name v).Covers (s.define (what.symbol name type)) := by
  intro key symbol hknows hvalue
  rcases Scopes.knows_define hknows with ⟨rfl, rfl⟩ | hknows
  · refine get?_set hv (.inl ?_)
    cases what <;> rfl
  · exact get?_set hv (.inr (h key symbol hknows hvalue))

/-- A routine is no variable. -/
theorem declare (h : r.Covers s) {kind : RecordKind} {symbol : Symbol} {p : Routine}
    (hp : symbol.routine? kind = some p) : r.Covers (s.define symbol) := by
  intro key found hknows hvalue
  rcases Scopes.knows_define hknows with ⟨-, rfl⟩ | hknows
  · rw [Symbol.isValue_of_routine hp] at hvalue
    exact nomatch hvalue
  · exact h key found hknows hvalue

theorem get?_setAll {names : List String} {values : List Value}
    (hvalues : ∀ v ∈ values, v ≠ .nothing) (hlength : values.length = names.length) {key : String}
    (h : key ∈ names ∨ ∃ w, r.get? key = some w ∧ w ≠ .nothing) :
    ∃ w, (r.setAll names values).get? key = some w ∧ w ≠ .nothing := by
  induction names generalizing values r with
  | nil =>
      rcases h with h | h
      · exact nomatch h
      · cases values with
        | nil => exact h
        | cons v values => exact nomatch hlength
  | cons name names ih =>
      cases values with
      | nil => exact nomatch hlength
      | cons v values =>
          refine ih (fun w hw => hvalues w (List.mem_cons_of_mem _ hw)) (Nat.succ.inj hlength) ?_
          have hv := hvalues v List.mem_cons_self
          rcases h with h | h
          · rcases List.mem_cons.mp h with rfl | h
            · exact .inr (get?_set hv (.inl rfl))
            · exact .inl h
          · exact .inr (get?_set hv (.inr h))

/-- The record of a callee covers the scopes of its body, if the caller's covers those around. -/
theorem callee {caller : Record} (h : caller.Covers s) (kind : RecordKind) (p : Routine)
    {values : List Value} (hvalues : ∀ v ∈ values, v ≠ .nothing)
    (hlength : values.length = (p.parameters.getD []).length) (label : String)
    (scopeKind : ScopeKind) :
    (Eval.calleeRecord kind p values caller).Covers
      (s.enter label scopeKind (p.parameters.getD [])) := by
  intro key symbol hknows hvalue
  refine get?_setAll hvalues (by rw [List.length_map, hlength]) ?_
  rcases Scopes.knows_enter hknows with ⟨q, hq, -, rfl⟩ | hknows
  · exact .inl (List.mem_map_of_mem hq)
  · exact .inr (h key symbol hknows hvalue)

end Record.Covers

/-! ## Contained programs -/

/-- There are no skips and stops in names, types and parameters. -/
theorem Formed.contained_label {W : String → Prop} {b : Bool} {c : Category} {node : Node}
    (h : Formed W c node) (hc : c = .name ∨ c = .type ∨ c = .parameter) :
    node.contained b = true := by
  cases h with
  | name _ => rfl
  | type _ => rfl
  | parameter hname htype =>
      cases hname
      cases htype
      rfl
  | _ => exact absurd hc (by decide)

namespace Node.Runs

/-- All parts of what may run may run in some place. -/
theorem child {b : Bool} {node part : Node} (h : node.Runs b) (hpart : part ∈ node.children) :
    ∃ b', part.Runs b' := by
  cases node with
  | whileLoop test body =>
      simp only [children, List.mem_cons, List.not_mem_nil, or_false] at hpart
      rcases hpart with rfl | rfl
      · exact ⟨true, h.whileLoop.1⟩
      · exact ⟨true, h.whileLoop.2⟩
  | forLoop initial termination step body =>
      obtain ⟨hparts, -, hbody⟩ := h.forLoop
      simp only [List.forall_mem_cons] at hparts
      simp only [children, List.mem_cons, List.not_mem_nil, or_false] at hpart
      rcases hpart with rfl | rfl | rfl | rfl
      · exact ⟨b, hparts.1⟩
      · exact ⟨b, hparts.2.1⟩
      · exact ⟨b, hparts.2.2.1⟩
      · exact ⟨true, hbody⟩
  | program body =>
      obtain rfl := List.mem_singleton.mp hpart
      exact ⟨false, h.program⟩
  | functionDecl name parameters type body =>
      obtain ⟨⟨c, hformed, -⟩, hc⟩ := h
      refine ⟨false, of_mem hformed hpart ?_⟩
      cases hformed with
      | functionDecl hname hparameters htype _ =>
          simp only [children, List.mem_cons, List.mem_append, List.not_mem_nil, or_false] at hpart
          rcases hpart with rfl | hpart | rfl | rfl
          · exact hname.contained_label (.inl rfl)
          · exact (hparameters part hpart).contained_label (.inr (.inr rfl))
          · exact htype.contained_label (.inr (.inl rfl))
          · exact hc
      | present hnode => cases hnode
  | procedureDecl name parameters body =>
      obtain ⟨⟨c, hformed, -⟩, hc⟩ := h
      refine ⟨false, of_mem hformed hpart ?_⟩
      cases hformed with
      | procedureDecl hname hparameters _ =>
          simp only [children, List.mem_cons, List.mem_append, List.not_mem_nil, or_false] at hpart
          rcases hpart with rfl | hpart | rfl
          · exact hname.contained_label (.inl rfl)
          · exact (hparameters part hpart).contained_label (.inr (.inr rfl))
          · exact hc
      | present hnode => cases hnode
  | _ => exact ⟨b, h.part (fun hcontext => hcontext) hpart⟩

theorem mem_parts {b : Bool} {tree node : Node} (h : tree.Runs b) (hnode : node ∈ tree.parts) :
    ∃ b', node.Runs b' := by
  rcases Node.mem_parts.mp hnode with rfl | ⟨child, hchild, hnode⟩
  · exact ⟨b, h⟩
  · obtain ⟨b', hruns⟩ := h.child hchild
    exact hruns.mem_parts hnode
termination_by tree
decreasing_by exact sizeOf_lt_of_mem_children hchild

end Node.Runs

/-- The bodies of declared routines are in no loop of their own. -/
theorem Node.Declares.runs {b : Bool} {tree : Node} {kind : RecordKind} {name : String}
    {p : Routine} (h : tree.Declares kind name p) (htree : tree.Runs b) : p.body.Runs false := by
  obtain ⟨decl, hdecl, entered, hentered, hp, -⟩ := h
  obtain ⟨b', hruns⟩ := htree.mem_parts hdecl
  rcases (routineSymbol?_inv hentered hp).2 with ⟨_, _, _, rfl⟩ | ⟨_, _, rfl⟩
  · exact hruns.functionDecl
  · exact hruns.procedureDecl

theorem Machine.DeclaredIn.contained {b : Bool} {tree : Node} {m : Machine}
    (h : m.DeclaredIn tree) (htree : tree.Runs b) : m.Contained :=
  ⟨fun name f hf => (h .function name f.toRoutine (by rw [routine?, hf]; rfl)).runs htree,
    fun name p hp => (h .procedure name p hp).runs htree⟩

/-! ## Runs -/

/-- The top record covers the scopes of what runs, and what is called is declared in the program. -/
structure Machine.Defined (tree : Node) (headers : List Record.Header) (s : Scopes) (m : Machine) :
    Prop where
  headers : m.headers = headers
  covers : ∃ r rest, m.stack = r :: rest ∧ r.Covers s
  scopes : s.DeclaredIn tree
  tables : m.DeclaredIn tree

/-- A run on a stack with given headers: the property that names are defined. -/
def Following.defined (tree : Node) : Following (List Record.Header) where
  part node := node ∈ tree.parts
  height headers h := h = headers.length
  holds headers s m := m.Defined tree headers s
  exits headers s e m := (e = .skip ∨ e = .stop → m.Defined tree headers s) ∧
    ∀ name, e ≠ .fault (.undefined name)

namespace Machine.Defined

variable {tree : Node} {headers : List Record.Header} {s t : Scopes} {m : Machine}

theorem le (h : m.Defined tree headers s) (hle : t.Le s) : m.Defined tree headers t := by
  obtain ⟨r, rest, hs, hcovers⟩ := h.covers
  exact ⟨h.headers, ⟨r, rest, hs, hcovers.le hle⟩, h.scopes.le hle, h.tables⟩

theorem length_eq (h : m.Defined tree headers s) : headers.length = m.stack.length := by
  rw [← h.headers, Machine.headers, List.length_map]

/-- A variable of the top record is set. -/
theorem setTop (h : m.Defined tree headers s) {height : Nat} (hheight : height = headers.length)
    (name : String) (v : Value)
    (hcovers : ∀ r : Record, r.Covers s → (r.set name v).Covers t) (ht : t.DeclaredIn tree) :
    Machine.Defined tree headers t { m with stack := m.stack.setAt height name v } := by
  obtain ⟨r, rest, hs, hr⟩ := h.covers
  have htop : m.stack.setAt height name v = r.set name v :: rest := by
    rw [hheight, h.length_eq, hs, CallStack.setAt, List.length_cons, if_pos rfl]
  refine ⟨?_, ⟨r.set name v, rest, htop, hcovers r hr⟩, ht, h.tables⟩
  exact (CallStack.map_header_setAt height name v m.stack).trans h.headers

/-- A body finds its own scopes covered, which were around its declaration. -/
theorem called (h : m.Defined tree headers s) {caller : Record} {rest : CallStack}
    (hs : m.stack = caller :: rest) (hle : t.Le s) (kind : RecordKind) (p : Routine)
    {values : List Value} (hvalues : ∀ v ∈ values, v ≠ .nothing)
    (hlength : values.length = (p.parameters.getD []).length) (label : String)
    (scopeKind : ScopeKind) :
    (m.called kind p values caller).Defined tree
      ((Eval.calleeRecord kind p values caller).header :: headers)
      (t.enter label scopeKind (p.parameters.getD [])) := by
  obtain ⟨top, below, htop, hcovers⟩ := h.covers
  obtain ⟨rfl, -⟩ := List.cons.inj (htop.symm.trans hs)
  refine ⟨?_, ⟨_, m.stack, rfl, ?_⟩, (h.scopes.le hle).enter label scopeKind _, h.tables⟩
  · rw [← h.headers]
    rfl
  · exact (hcovers.le hle).callee kind p hvalues hlength label scopeKind

/-- Behind a body, the record that is popped is the one that was pushed for it. -/
theorem returned (h : m.Defined tree headers s) {d : Nat} {kind : RecordKind} {p : Routine}
    {values : List Value} {caller r : Record} {rest : CallStack} {v : Value} {after : Machine}
    (hrun : perform d (.eval p.body) (m.called kind p values caller) = .ok v after)
    (hafter : after.Defined tree ((Eval.calleeRecord kind p values caller).header :: headers) t)
    (hs : after.stack = r :: rest) : (after.popped r rest).Defined tree headers s := by
  obtain ⟨T, r', hstack, -⟩ := perform_below d p.body (m := m.called kind p values caller) rfl
  rw [hrun, Ending.machine_ok] at hstack
  -- as many records as before the body, so that none is left above the one of the body
  have hlength : T.length = 0 := by
    have hafterLength := hafter.length_eq
    have hbefore := h.length_eq
    rw [hstack, List.length_append, List.length_cons, List.length_cons] at hafterLength
    omega
  obtain rfl := List.length_eq_zero_iff.mp hlength
  obtain ⟨-, rfl⟩ := List.cons.inj (hstack.symm.trans hs)
  exact ⟨h.headers, h.covers, h.scopes, hafter.tables⟩

end Machine.Defined

/-- What makes names defined: see the beginning of this file. -/
structure Node.Orderly (tree : Node) : Prop where
  unique : ∀ kind, (tree.declaredNames kind).Nodup
  runs : tree.Runs false
  fresh : ∀ decl ∈ tree.parts, ∀ pair ∈ decl.initialisers, ∀ name ∈ pair.1.reads,
    name ∉ pair.2.reads

theorem Follower.defined {tree : Node} (htree : tree.Orderly) :
    Follower Symbol.isValue (Following.defined tree) where
  children _ _ hpart hmem := Node.mem_parts_of_mem_children hpart hmem
  holds_le _ _ _ _ hle hm := hm.le hle
  exits_le _ _ _ _ _ hle hexit := ⟨fun he => (hexit.1 he).le hle, hexit.2⟩
  shown _ _ _ _ hm := ⟨hm.headers, hm.covers, hm.scopes, hm.tables⟩
  height _ _ _ _ _ hm hs := by
    show _ = _
    rw [hm.length_eq, hs, List.length_cons]
  set _ _ _ _ name v hm hheight hv :=
    hm.setTop hheight name v (fun _ hr => hr.set hv) hm.scopes
  declare _ _ _ _ what name type v hm hheight hv :=
    hm.setTop hheight name v (fun _ hr => hr.define hv what type) (hm.scopes.define what name type)
  initialiser _ s _ decl what name type value hdecl hmem _ hvalue := by
    -- the name is not set yet, but its initial value does not read it
    refine .inr (hvalue.of_define ?_ ?_)
    · cases what <;> rfl
    · rw [symbol_name]
      exact htree.fresh decl hdecl _ hmem name (List.mem_singleton.mpr rfl)
  routine _ s m decl kind symbol entered r _ _ _ hdecl hentered hr hlisted hname _ _ _ hm := by
    have hdeclares : tree.Declares kind symbol.name r.listed :=
      ⟨decl, hdecl, entered, hentered, hlisted, hname.symm⟩
    obtain ⟨top, rest, hs, hcovers⟩ := hm.covers
    refine ⟨?_, ⟨top, rest, ?_, hcovers.declare hr⟩, hm.scopes.declare hr hdeclares,
      hm.tables.declare hdecl hentered⟩
    · rw [Machine.headers, Machine.declare_stack]
      exact hm.headers
    · rw [Machine.declare_stack, hs]
  name _ s m name symbol r rest hm hgrown hword hfound hfits hs := by
    obtain ⟨top, below, htop, hcovers⟩ := hm.covers
    obtain ⟨rfl, -⟩ := List.cons.inj (htop.symm.trans hs)
    -- names of built-in types are looked up, too, but they are no words
    exact .inl (hcovers name symbol (hgrown.declareWords.knows hfound hword) hfits)
  found _ _ _ _ _ _ _ _ _ _ _ _ _ := ⟨fun he => he.elim nofun nofun, nofun⟩
  call k s m n kind name symbol r p values caller rest hm hgrown hknows hr hp _ hn hs hvalues
      hlength := by
    -- the routine that the run finds is the one that the analyzer found
    have honce := List.nodup_iff_count_le_one.mp (htree.unique kind) name
    obtain rfl := (hm.tables kind name p hp).unique honce (hm.scopes kind name symbol r hknows hr)
    obtain ⟨home, label, scopeKind, behind, hhome, hle, hbody⟩ := hgrown.known_routine hknows hr
    have hdeclares := hm.tables kind name r.listed hp
    have hcalled := hn.called hs hle kind r.listed hvalues hlength label scopeKind
    refine ⟨_, _, behind, hdeclares.body_mem, hhome.enter label scopeKind _, hbody, hcalled, ?_, ?_⟩
    · intro d v after r' rest' hrun hafter hstack
      exact hn.returned hrun hafter hstack
    · intro d e after hrun hexit
      -- no skip or stop leaves the body, so nothing is owed to the loops of the caller
      have hbalanced := perform_balanced d (hdeclares.runs htree.runs)
        (hcalled.tables.contained htree.runs)
      rw [hrun] at hbalanced
      exact ⟨fun he => absurd he (not_or.mpr hbalanced), hexit.2⟩
  skipped _ _ _ hexit := hexit.1 (.inl rfl)
  stopped _ _ _ hexit := hexit.1 (.inr rfl)
  exit _ _ _ _ hm hordinary := ⟨fun _ => hm, fun _ he => hordinary _ he⟩
  empty _ _ _ _ _ := ⟨fun he => he.elim nofun nofun, nofun⟩

/-- A program starts on a record without variables, and nothing is known. -/
theorem Machine.defined_started (tree : Node) :
    Machine.started.Defined tree [Record.program.header] Scopes.initial where
  headers := rfl
  covers := ⟨_, _, rfl, fun _ _ hknows _ => absurd hknows Scopes.not_knows_initial⟩
  scopes := Scopes.EachRoutine.initial
  tables kind _ _ hp := by cases kind <;> exact nomatch hp

/-- In an accepted program, let no two functions and no two procedures share a name, let each skip
    and stop be in a loop of its routine, let no name be read that stands for a routine, and let no
    initial value read the name that it is for.  Then every name that is read has a value in the top
    record, and neither a part of a run nor the program fails because a name is not defined. -/
theorem names_defined {source : String} {tree : Node} (hparse : parse source = .ok tree)
    (haccepted : (analyze tree).1 = none) (hfunctions : (tree.declaredNames .function).Nodup)
    (hprocedures : (tree.declaredNames .procedure).Nodup)
    (hcontained : tree.contained false = true)
    (hvalues : (analyzeWith Symbol.isValue Scopes.initial tree).1 = (analyze tree).1)
    (hfresh : ∀ decl ∈ tree.parts, ∀ pair ∈ decl.initialisers, ∀ name ∈ pair.1.reads,
      name ∉ pair.2.reads) (depth : Nat) :
    (∀ v ∈ visits depth (.eval tree) Machine.initial,
      (∀ name, v.task = .eval (.identifier name) →
        ∃ r rest w, v.machine.stack = r :: rest ∧ r.get? name = some w ∧ w ≠ .nothing) ∧
      ∀ name after, perform v.depth v.task v.machine ≠ .error (.fault (.undefined name)) after) ∧
    ∀ name, (interpret depth tree).exit ≠ some (.fault (.undefined name)) := by
  obtain ⟨body, behind, rfl, hformed, hscoped⟩ :=
    scoped_of_accepted hparse (hvalues.trans haccepted)
  have horderly : (Node.program body).Orderly := by
    refine ⟨fun kind => ?_, ⟨⟨_, .program hformed, fun _ => rfl⟩, hcontained⟩, hfresh⟩
    cases kind with
    | function => exact hfunctions
    | procedure => exact hprocedures
    | program => rw [Node.declaredNames_program]; exact List.nodup_nil
  have hfollower := Follower.defined horderly
  have hbody : body ∈ (Node.program body).parts :=
    Node.mem_parts_of_mem_children (Node.self_mem_parts _) List.mem_cons_self
  have hstarted := Machine.defined_started (.program body)
  have hexit : ∀ name, (interpret depth (.program body)).exit ≠
      some (.fault (.undefined name)) := by
    intro name hexit
    obtain ⟨m, hm⟩ := hfollower.program_exits hbody hscoped hstarted hexit
    exact hm.2 name rfl
  refine ⟨fun v hv => ?_, hexit⟩
  rcases hfollower.program_visits hbody hscoped hstarted depth v hv with
    ⟨hdepth, htask, hmachine⟩ | ⟨⟨k, s, s'⟩, hpre⟩
  · rw [htask]
    refine ⟨nofun, fun name after hrun => hexit name ?_⟩
    rw [hdepth, hmachine] at hrun
    unfold interpret Eval.eval
    rw [hrun]
  · have hend := Contract.fulfilled hfollower.kept v.depth (k, s, s') v.task v.machine hpre
    obtain ⟨hgrown, hdefined, hadmits⟩ := hpre
    refine ⟨fun name htask => ?_, fun name after hrun => ?_⟩
    · rw [htask] at hadmits
      obtain ⟨r, rest, hs, -⟩ := hdefined.covers
      rcases hadmits.2 with hnode | hnode | hnode
      · cases hnode with
        | identifier hword hfound hfits =>
            rcases hfollower.name k s v.machine name _ r rest hdefined hgrown hword hfound hfits hs
              with ⟨w, hw, hsome⟩ | hfault
            · exact ⟨r, rest, w, hs, hw, hsome⟩
            · exact absurd rfl (hfault.2 name)
      · exact nomatch hnode
      · exact nomatch hnode
    · rw [hrun] at hend
      exact hend.2 name rfl

/-- A function reads a variable from around it, in the initial value of a constant, and its
    parameter. -/
theorem names_defined_around :
    ∃ source tree, parse source = .ok tree ∧ (analyze tree).1 = none ∧
      (∃ v ∈ visits 10 (.eval tree) Machine.initial, v.task = .eval (.identifier "x") ∧
        ∃ r rest w, v.machine.stack = r :: rest ∧ r.get? "x" = some w ∧ w ≠ .nothing) ∧
      ∀ name, (interpret 10 tree).exit ≠ some (.fault (.undefined name)) := by
  let tree : Node := .program (.block
    [.variableDecl (.typeName "boolean") [.identifier "x"] [.boolean "true"],
    .functionDecl (.identifier "f") [.parameter (.identifier "y") (.typeName "boolean")]
      (.typeName "boolean") (.block
        [.constantDecl (.typeName "boolean") [.identifier "z"] [.identifier "x"],
        .whileLoop (.truth (.identifier "y")) (.block [.stop]), .give (.identifier "z")]),
    .display (.functionCall (.identifier "f") [.boolean "true"])])
  have hparse : parse ("\x7b\nlet boolean x = true\nfunc f(boolean y) -> boolean \x7b\n"
      ++ "keep boolean z = x\nwhile y \x7b\nstop\n\x7d\ngive z\n\x7d\nshow f(true)\n\x7d")
      = .ok tree := by cbv
  have haccepted : (analyze tree).1 = none := by cbv
  have hvalues : (analyzeWith Symbol.isValue Scopes.initial tree).1 = none := by cbv
  have hfunctions : tree.declaredNames .function = ["f"] := by cbv
  have hprocedures : tree.declaredNames .procedure = [] := by cbv
  have hfresh : (tree.parts.all fun decl => decl.initialisers.all fun pair =>
      pair.1.reads.all fun name => decide (name ∉ pair.2.reads)) = true := by cbv
  simp only [List.all_eq_true, decide_eq_true_eq] at hfresh
  obtain ⟨hvisits, hexit⟩ := names_defined hparse haccepted (by rw [hfunctions]; decide)
    (by rw [hprocedures]; exact List.nodup_nil) rfl (hvalues.trans haccepted.symm) hfresh 10
  -- the eleventh part that the run comes to is the initial value of the constant
  have hlength : 10 < (visits 10 (.eval tree) Machine.initial).length := by decide
  have htask : (visits 10 (.eval tree) Machine.initial)[10].task = .eval (.identifier "x") := by
    cbv
  have hread := (hvisits _ (List.getElem_mem hlength)).1 _ htask
  exact ⟨_, tree, hparse, haccepted, ⟨_, List.getElem_mem hlength, htask, hread⟩, hexit⟩

end BraceScript
