import BraceScript.Proofs.Likeness

/-! # Depth — the bound on a parse never shows

    Every parser takes a bound on its depth and fails when it is used up.  With a bound that is
    enough for the tokens ahead that never happens, and all such bounds give one outcome.

    * `same`: equality as a likeness of states;
    * `ends`: a parser ends behind tokens it has taken, or with a failure of the text;
    * `settled`, `unbounded`: a parser can be taken without its bound, as `free`. -/

namespace BraceScript

/-- The failures that a text can be blamed for, by their codes. -/
def ParseFault.IsClean : ParseFault → Prop
  | .lexical e => e.cause.code = .invalidCharacter ∨ e.cause.code = .unterminatedString
  | .syntactic e =>
      e.report.code = .unexpectedToken ∨ e.report.code = .wrongNumberOfExpressions
  | .exhausted => False

namespace Parser

variable {α β : Type}

/-- A parser without its bound. -/
abbrev free (f : (depth : Nat) → Parser α) : Parser α := runFrom f

theorem shift_clean {s s' : State} {e : ParseFault} (h : shift s = .error e s') : e.IsClean := by
  rcases shift_cases s with ⟨s'', hshift, -⟩ | ⟨e', c, hshift, hnext⟩
  · rw [hshift] at h
    cases h
  · rw [hshift] at h
    cases h
    exact Cursor.code_next hnext

/-- The line ends in hand can be passed over, unless a token cannot be read. -/
theorem exists_lines (s : State) : ∃ r, Lines s r ∧ ∀ e s', r = .error e s' → e.IsClean := by
  induction hn : s.size using Nat.strong_induction_on generalizing s with
  | _ n ih =>
      by_cases h : s.token.kind = .newline
      · cases hshift : shift s with
        | ok u s' =>
            have hlt := (shift_takes (by rw [h]; decide) hshift).size_lt
            obtain ⟨r, hr, hclean⟩ := ih s'.size (by omega) s' rfl
            exact ⟨r, .more h hshift hr, hclean⟩
        | error e s' =>
            refine ⟨_, .error h hshift, ?_⟩
            rintro _ _ ⟨⟩
            exact shift_clean hshift
      · exact ⟨_, .none h, fun e s' hr => by cases hr⟩

/-- States with equal tokens ahead. -/
theorem shift_same {s : State} (hend : s.token.kind ≠ .endOfFile) :
    Outcomes Eq (fun e t e' t' => e = e' ∧ t = t' ∧ e.IsClean) s s (shift s) (shift s) := by
  rcases shift_cases s with ⟨s', hshift, hnext⟩ | ⟨e, c, hshift, hnext⟩
  · rw [hshift]
    exact .ok (.single ⟨hend, hnext⟩) (.single ⟨hend, hnext⟩) rfl
  · rw [hshift]
    exact .error ⟨rfl, rfl, Cursor.code_next hnext⟩

/-- Equal states, and equal failures of the text. -/
def same : Likeness where
  states := Eq
  faults e s e' s' := e = e' ∧ s = s' ∧ e.IsClean
  word := by
    rintro s _ rfl
    exact ⟨rfl, rfl⟩
  reject := by
    rintro s _ cause rfl
    refine ⟨rfl, rfl, ?_⟩
    cases cause with
    | expected _ => exact .inl rfl
    | expressionCount _ _ => exact .inr rfl
  shift := by
    rintro s _ rfl hend _
    exact shift_same hend
  lines := by
    rintro s _ rfl hline
    obtain ⟨r, hr, hclean⟩ := exists_lines s
    refine ⟨r, r, hr, hr, ?_⟩
    cases r with
    | ok u s' => exact .ok hr.takes.1 hr.takes.1 rfl
    | error e s' => exact .error ⟨rfl, rfl, hclean e s' rfl⟩

/-- Outcomes that are alike in this way are equal. -/
theorem Outcomes.eq {s t : State} {r r' : Result α}
    (h : Outcomes same.states same.faults s t r r') : r = r' := by
  cases h with
  | ok _ _ hst =>
      obtain rfl : _ = _ := hst
      rfl
  | error he =>
      obtain ⟨rfl, rfl, -⟩ := he
      rfl

/-- A parser with a bound that is enough goes as it goes without one. -/
theorem settled {f : Nat → Parser α} {rank n m d : Nat} (hd : 16 * n + 15 ≤ d)
    (h : ∀ d e, same.Settled rank d e (f d) (f e)) (hrank : Nat.ble rank 15 = true) :
    same.Alike n m (f d) (free f) := by
  rintro s _ rfl hn _
  have hbound := depthBound_ge s
  have hrank := Nat.le_of_ble_eq_true hrank
  exact h d (depthBound s) ⟨by omega, by omega⟩ s s rfl (Nat.le_refl s.size) (Nat.le_refl s.size)

/-- What a parser does with one more than the bound of its parts, it does without a bound. -/
theorem unbounded {f : Nat → Parser α} {p : Parser α}
    (h : ∀ n d, 16 * n + 15 ≤ d → same.Alike n n (f (d + 1)) p) : free f = p := by
  funext s
  have hbound := depthBound_ge s
  obtain ⟨d, hd⟩ : ∃ d, depthBound s = d + 1 := ⟨depthBound s - 1, by omega⟩
  rw [free, runFrom, hd]
  exact (h s.size d (by omega) s s rfl (Nat.le_refl _) (Nat.le_refl _)).eq

/-- A parser with any bound that is enough comes to an end: behind tokens that it has taken, or
    with a failure of the text. -/
theorem ends {f : Nat → Parser α} {rank d : Nat} (h : ∀ d e, same.Settled rank d e (f d) (f e))
    {s : State} (hd : 16 * s.size + rank ≤ d) :
    (∃ a s', f d s = .ok a s' ∧ Reaches s s') ∨
      ∃ e s', f d s = .error e s' ∧ e.IsClean := by
  have hs := h d d ⟨hd, hd⟩ s s rfl (Nat.le_refl s.size) (Nat.le_refl s.size)
  cases hrun : f d s with
  | ok a s' =>
      rw [hrun] at hs
      cases hs with
      | ok hreaches _ _ => exact .inl ⟨a, s', rfl, hreaches⟩
  | error e s' =>
      rw [hrun] at hs
      cases hs with
      | error he => exact .inr ⟨e, s', rfl, he.2.2⟩

end Parser

end BraceScript
