import Mathlib
import BraceScript.Proofs.RenamedAnalyses
import BraceScript.Proofs.Shapes

/-! # Name invariance — what things are called does not matter

    The identifiers of a program can be given any other names that are no reserved words, as long as
    no two become one.  The names of types stay, and identifiers never have them.

    A renaming of the identifiers says nothing about other names, but it extends to a renaming of
    all names (`exists_renaming`), under which runs and verdicts are known to be the same.  That the
    extension does not matter needs that no other names occur in them (`names_known`): a name that
    the program does not have could be exchanged for one that occurs nowhere.

    * `renaming_invariant`: the verdict on the renamed program and the runs of it. -/

namespace BraceScript

/-! ## The names of a program -/

namespace Node

/-- The name of an identifier. -/
def identifier? : Node → Option String
  | .identifier name => some name
  | _ => none

/-- The identifiers in a part of a program, each as often as it occurs. -/
def identifiers (node : Node) : List String := node.parts.filterMap identifier?

/-- A type or an identifier is named as such. -/
def NameFits : Node → Prop
  | .typeName name => name ∈ typeNames
  | .identifier name => IsWord name
  | _ => True

/-- All types and identifiers in a part of a program are named as such. -/
def WellNamed (node : Node) : Prop := ∀ part ∈ node.parts, part.NameFits

theorem WellNamed.of_children {node : Node} (hown : node.NameFits)
    (hchildren : ∀ child ∈ node.children, child.WellNamed) : node.WellNamed := by
  intro part hpart
  rcases mem_parts.mp hpart with rfl | ⟨child, hchild, hpart⟩
  · exact hown
  · exact hchildren child hchild part hpart

end Node

theorem Kind.text_mem_typeNames {k : Kind} (h : k.isType = true) : k.text ∈ typeNames := by
  cases k <;> first | decide | exact nomatch h

/-- The types and identifiers of what the grammar describes are named as such. -/
theorem Shaped.wellNamed {p : Phrase} {node : Node} (h : Shaped p node) : node.WellNamed := by
  have habsent : Node.absent.WellNamed := .of_children trivial (by simp [Node.children])
  induction h with
  | name hword _ => exact .of_children hword (by simp [Node.children])
  | type hk => exact .of_children (Kind.text_mem_typeNames hk) (by simp [Node.children])
  | identifier _ ih | ofArithmetic _ ih | ofBoolean _ _ ih | step _ ih => exact ih
  | noStep | noAlternative => exact habsent
  | @forLoop target value _ _ _ _ _ _ _ _ htarget hvalue htermination hstep hbody =>
      have hinitial : (Node.assignment target value).WellNamed :=
        .of_children trivial (by simp [Node.children, htarget, hvalue])
      exact .of_children trivial (by simp [Node.children, hinitial, htermination, hstep, hbody])
  | _ => exact .of_children trivial (by grind [Node.children])

/-- What a program names is an identifier or a type. -/
theorem mem_names_of_parse {source : String} {tree : Node} (h : parse source = .ok tree)
    {name : String} (hname : name ∈ tree.names) :
    name ∈ tree.identifiers ∧ IsWord name ∨ name ∈ typeNames := by
  obtain ⟨part, hpart, hname⟩ := List.mem_flatMap.mp hname
  have hwell := (parse_shaped h).wellNamed part hpart
  cases part with
  | identifier spelled =>
      obtain rfl := List.mem_singleton.mp hname
      exact .inl ⟨List.mem_filterMap.mpr ⟨_, hpart, rfl⟩, hwell⟩
  | typeName spelled =>
      obtain rfl := List.mem_singleton.mp hname
      exact .inr hwell
  | _ => exact absurd hname List.not_mem_nil

/-- The identifiers of a program are no reserved words. -/
theorem isWord_of_parse {source : String} {tree : Node} (h : parse source = .ok tree)
    {name : String} (hname : name ∈ tree.identifiers) : IsWord name := by
  obtain ⟨part, hpart, hname⟩ := List.mem_filterMap.mp hname
  have hwell := (parse_shaped h).wellNamed part hpart
  cases part with
  | identifier spelled =>
      cases hname
      exact hwell
  | _ => exact nomatch hname

theorem IsWord.not_mem_typeNames {name : String} (h : IsWord name) : name ∉ typeNames := by
  intro hname
  simp only [typeNames, List.mem_cons, List.not_mem_nil, or_false] at hname
  rcases hname with rfl | rfl | rfl <;> exact absurd h (by decide)

/-! ## Renamings of identifiers -/

/-- The new name for a name: types keep theirs. -/
def respell (ρ : String → String) (name : String) : String :=
  if name ∈ typeNames then name else ρ name

/-- A renaming of identifiers extends to one of all names. -/
theorem exists_renaming {ρ : String → String} {identifiers : List String}
    (hinjective : ∀ x ∈ identifiers, ∀ y ∈ identifiers, ρ x = ρ y → x = y)
    (hidentifiers : ∀ x ∈ identifiers, x ∉ typeNames)
    (hnew : ∀ x ∈ identifiers, ρ x ∉ typeNames) :
    ∃ e : Renaming, ∀ x, x ∈ identifiers ∨ x ∈ typeNames → e.map x = respell ρ x := by
  have htype : ∀ x ∈ typeNames, respell ρ x = x := fun x hx => if_pos hx
  have hidentifier : ∀ x ∈ identifiers, respell ρ x = ρ x := fun x hx =>
    if_neg (hidentifiers x hx)
  let known : Set String := {x | x ∈ identifiers ∨ x ∈ typeNames}
  have hknown : Set.InjOn (respell ρ) known := by
    rintro x (hx | hx) y (hy | hy) hxy
    · rw [hidentifier x hx, hidentifier y hy] at hxy
      exact hinjective x hx y hy hxy
    · rw [hidentifier x hx, htype y hy] at hxy
      exact absurd (hxy ▸ hy) (hnew x hx)
    · rw [htype x hx, hidentifier y hy] at hxy
      exact absurd (hxy ▸ hx) (hnew y hy)
    · rwa [htype x hx, htype y hy] at hxy
  have hfinite : known.Finite := (List.finite_toSet identifiers).union (List.finite_toSet typeNames)
  have hfew : Cardinal.mk known < Cardinal.mk String :=
    hfinite.lt_aleph0.trans_le (Cardinal.aleph0_le_mk String)
  obtain ⟨all, hall⟩ := Cardinal.extend_function_of_lt
    ⟨fun x : known => respell ρ x, hknown.injective⟩ hfew ⟨Equiv.refl String⟩
  refine ⟨⟨all, all.injective, fun type h => ?_⟩, fun x hx => hall ⟨x, hx⟩⟩
  exact (hall ⟨type, .inr h⟩).trans (htype type h)

/-- What no renaming changes that keeps the known names has no other names in it. -/
theorem names_known {α : Type} (rename : (String → String) → α → α) {names : α → List String}
    (hnames : ∀ f a, names (rename f a) = (names a).map f) {a : α} {known : List String}
    (hfixed : ∀ ρ : Renaming, (∀ x ∈ known, ρ.map x = x) → rename ρ.map a = a) {name : String}
    (hname : name ∈ names a) : name ∈ known ∨ name ∈ typeNames := by
  by_contra hother
  rw [not_or] at hother
  obtain ⟨fresh, hfresh⟩ := Infinite.exists_notMem_finset (known ++ typeNames ++ names a).toFinset
  simp only [List.mem_toFinset, List.mem_append, not_or] at hfresh
  -- the name is exchanged for one that occurs nowhere
  let swap : Equiv.Perm String := Equiv.swap name fresh
  have hkeeps : ∀ x, x ∈ known ∨ x ∈ typeNames → swap x = x := by
    intro x hx
    refine Equiv.swap_apply_of_ne_of_ne ?_ ?_
    · rintro rfl
      exact hx.elim hother.1 hother.2
    · rintro rfl
      exact hx.elim hfresh.1.1 hfresh.1.2
  have hsame := hfixed ⟨swap, swap.injective, fun x hx => hkeeps x (.inr hx)⟩
    fun x hx => hkeeps x (.inl hx)
  have hmem : fresh ∈ names a := by
    rw [← hsame, hnames]
    exact List.mem_map.mpr ⟨name, hname, Equiv.swap_apply_left name fresh⟩
  exact hfresh.2 hmem

/-! ## Runs and verdicts -/

/-- A tree is not changed by a renaming that keeps its names. -/
theorem Node.rename_eq_self {tree : Node} {f : String → String} (h : ∀ x ∈ tree.names, f x = x) :
    tree.rename f = tree :=
  (Node.rename_congr h).trans tree.rename_id

/-- The names in a run are those of the program, or of types. -/
theorem names_interpret {depth : Nat} {tree : Node} {name : String}
    (h : name ∈ (interpret depth tree).names) : name ∈ tree.names ∨ name ∈ typeNames := by
  refine names_known Run.rename (fun f r => r.names_rename) (fun ρ hρ => ?_) h
  rw [← interpret_rename, Node.rename_eq_self hρ]

/-- The names in a verdict are those of the program, or of types. -/
theorem names_analyze {tree : Node} {e : AnalysisFault} (he : (analyze tree).1 = some e)
    {name : String} (h : name ∈ e.names) : name ∈ tree.names ∨ name ∈ typeNames := by
  refine names_known AnalysisFault.rename (fun f e => e.names_rename) (fun ρ hρ => ?_) h
  have hverdict := analyze_rename ρ tree
  rw [Node.rename_eq_self hρ, he] at hverdict
  exact (Option.some.inj hverdict).symm

/-- The identifiers of a program can be given other names that are no reserved words, if no two
    become one.  The analysis then accepts as before or stops for the same cause, and every run
    shows the same, ends in the same way, and leaves the same machine but for the names. -/
theorem renaming_invariant {source : String} {tree : Node} {ρ : String → String}
    (hparse : parse source = .ok tree)
    (hinjective : ∀ x ∈ tree.identifiers, ∀ y ∈ tree.identifiers, ρ x = ρ y → x = y)
    (hwords : ∀ x ∈ tree.identifiers, IsWord (ρ x)) :
    ((analyze (tree.rename (respell ρ))).1 =
        (analyze tree).1.map (AnalysisFault.rename (respell ρ)) ∧
      (analyze (tree.rename (respell ρ))).1.map AnalysisFault.code =
        (analyze tree).1.map AnalysisFault.code) ∧
    ∀ depth,
      interpret depth (tree.rename (respell ρ)) = (interpret depth tree).rename (respell ρ) ∧
      (interpret depth (tree.rename (respell ρ))).machine.output =
        (interpret depth tree).machine.output ∧
      (interpret depth (tree.rename (respell ρ))).exit.map Exit.code =
        (interpret depth tree).exit.map Exit.code := by
  obtain ⟨e, he⟩ := exists_renaming hinjective
    (fun x hx => (isWord_of_parse hparse hx).not_mem_typeNames)
    fun x hx => (hwords x hx).not_mem_typeNames
  have hknown : ∀ x, x ∈ tree.names ∨ x ∈ typeNames → e.map x = respell ρ x := by
    rintro x (hx | hx)
    · exact he x ((mem_names_of_parse hparse hx).imp And.left id)
    · exact he x (.inr hx)
  have htree : tree.rename e.map = tree.rename (respell ρ) :=
    Node.rename_congr fun x hx => hknown x (.inl hx)
  have hverdict : (analyze (tree.rename (respell ρ))).1 =
      (analyze tree).1.map (AnalysisFault.rename (respell ρ)) := by
    rw [← htree, analyze_rename]
    cases hstopped : (analyze tree).1 with
    | none => rfl
    | some fault =>
        refine congrArg some (AnalysisFault.rename_congr fun x hx => ?_)
        exact hknown x (names_analyze hstopped hx)
  refine ⟨⟨hverdict, ?_⟩, fun depth => ?_⟩
  · rw [hverdict, Option.map_map]
    exact congrArg (Option.map · _) (funext AnalysisFault.code_rename)
  · have hrun : interpret depth (tree.rename (respell ρ)) =
        (interpret depth tree).rename (respell ρ) := by
      rw [← htree, interpret_rename]
      exact Run.rename_congr fun x hx => hknown x (names_interpret hx)
    refine ⟨hrun, ?_, ?_⟩
    · rw [hrun]
      exact Machine.output_rename _
    · rw [hrun, Run.rename, Option.map_map]
      exact congrArg (Option.map · _) (funext Exit.code_rename)

/-- A function and a variable exchange their names, and a parameter gets the name that the record of
    a program has: the program is accepted and shows the same.  And a constant that is assigned to
    is named in the error by its other name. -/
theorem renaming_invariant_for_exchanged_names :
    (∃ source tree ρ, parse source = .ok tree ∧ ρ "f" = "x" ∧ ρ "x" = "f" ∧ ρ "y" = "program" ∧
      (analyze (tree.rename (respell ρ))).1 = none ∧
      (interpret 14 (tree.rename (respell ρ))).machine.output = "ab\n" ∧
      ∀ depth, interpret depth (tree.rename (respell ρ)) =
        (interpret depth tree).rename (respell ρ)) ∧
    ∃ source tree ρ, parse source = .ok tree ∧ ρ "x" = "f" ∧
      (analyze tree).1 = some (.semantic (.assignmentToConstant "x")) ∧
      (analyze (tree.rename (respell ρ))).1 = some (.semantic (.assignmentToConstant "f")) ∧
      (analyze (tree.rename (respell ρ))).1.map AnalysisFault.code =
        (analyze tree).1.map AnalysisFault.code := by
  let string := Node.typeName "string"
  let f := Node.identifier "f"
  let x := Node.identifier "x"
  let y := Node.identifier "y"
  let ρ : String → String := fun name =>
    if name = "f" then "x" else if name = "x" then "f" else "program"
  constructor
  · let tree := Node.program (.block [.variableDecl string [x] [.string "'b'"],
      .functionDecl f [.parameter y string] string (.block [.give (.binary y "+" x)]),
      .display (.functionCall f [.string "'a'"])])
    have hparse : parse ("\x7b\nlet string x = 'b'\nfunc f(string y) -> string \x7b\n"
        ++ "give y + x\n\x7d\nshow f('a')\n\x7d") = .ok tree := by cbv
    have hidentifiers : tree.identifiers = ["x", "f", "y", "y", "x", "f"] := by cbv
    have haccepted : (analyze tree).1 = none := by cbv
    have hshown : (interpret 14 tree).machine.output = "ab\n" := by cbv
    have hinjective : ∀ x ∈ tree.identifiers, ∀ y ∈ tree.identifiers, ρ x = ρ y → x = y := by
      rw [hidentifiers]
      decide
    have hwords : ∀ x ∈ tree.identifiers, IsWord (ρ x) := by
      rw [hidentifiers]
      decide
    have hinvariant := renaming_invariant hparse hinjective hwords
    refine ⟨_, tree, ρ, hparse, rfl, rfl, rfl, ?_, ?_, fun depth => (hinvariant.2 depth).1⟩
    · rw [hinvariant.1.1, haccepted]
      rfl
    · rw [(hinvariant.2 14).2.1, hshown]
  · let tree := Node.program (.block [.constantDecl string [x] [.string "'b'"],
      .assignment x (.string "'a'")])
    have hparse : parse "\x7b\nkeep string x = 'b'\nx = 'a'\n\x7d" = .ok tree := by cbv
    have hidentifiers : tree.identifiers = ["x", "x"] := by cbv
    have hrejected : (analyze tree).1 = some (.semantic (.assignmentToConstant "x")) := by cbv
    have hinjective : ∀ x ∈ tree.identifiers, ∀ y ∈ tree.identifiers, ρ x = ρ y → x = y := by
      rw [hidentifiers]
      decide
    have hwords : ∀ x ∈ tree.identifiers, IsWord (ρ x) := by
      rw [hidentifiers]
      decide
    obtain ⟨⟨hverdict, hcode⟩, -⟩ := renaming_invariant hparse hinjective hwords
    refine ⟨_, tree, ρ, hparse, rfl, hrejected, ?_, hcode⟩
    rw [hverdict, hrejected]
    rfl

end BraceScript
