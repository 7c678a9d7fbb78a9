import Rustgresql.Lib.TokenProgram

/-!
# Two readings in step

Two lists of symbols of the same length are a list of pairs. `Overlooks` says of a program that goes through
such a list that it never tells the two symbols of a pair apart: each test, each look and each literal comes
out the same for both, and the program goes on in the same way. Then both lists are read alike
(`overlooks_parses`).
-/

namespace TokenProgram

variable {σ ν ε τ C α : Type} {R : C → Type}

/-- A list of pairs, read on one side. A token without a symbol has none on either side. -/
def side (f : σ × σ → σ) (l : List (Option (σ × σ))) : List (Option σ) := l.map (Option.map f)

/-- The symbols of one list, paired with themselves. -/
def twice (l : List (Option σ)) : List (Option (σ × σ)) := l.map (Option.map fun x => (x, x))

/-- The program never tells the symbols of a pair apart. -/
inductive Overlooks (value : σ → Option (Option ν)) (body : (c : C) → Prog σ ν ε τ C R (R c)) :
    {β : Type} → Prog σ ν ε τ C R β → List (Option (σ × σ)) → Prop
  /-- Nothing is left to tell apart. -/
  | same {β : Type} (p : Prog σ ν ε τ C R β) (l : List (Option σ)) : Overlooks value body p (twice l)
  | done {β : Type} (a : β) (l) : Overlooks value body (.done a) l
  | fail {β : Type} (e) (l) : Overlooks value body (.fail e : Prog σ ν ε τ C R β) l
  | failTaken {β : Type} (e) (l) : Overlooks value body (.failTaken e : Prog σ ν ε τ C R β) l
  | take {β : Type} {p : σ → Bool} {k : σ → Prog σ ν ε τ C R β} {o x y l} (htest : p x = p y)
      (hsame : p x → k x = k y) (htaken : p x → Overlooks value body (k x) l)
      (hleft : p x = false → Overlooks value body o (some (x, y) :: l)) :
      Overlooks value body (.take p k o) (some (x, y) :: l)
  | takeNone {β : Type} {p : σ → Bool} {k : σ → Prog σ ν ε τ C R β} {o l} (hl : l.head?.join = none)
      (hleft : Overlooks value body o l) : Overlooks value body (.take p k o) l
  | look {β : Type} {k : Option σ → Prog σ ν ε τ C R β} {l}
      (hsame : k (l.head?.join.map Prod.fst) = k (l.head?.join.map Prod.snd))
      (hrest : Overlooks value body (k (l.head?.join.map Prod.fst)) l) : Overlooks value body (.look k) l
  | atEnd {β : Type} {k : Bool → Prog σ ν ε τ C R β} {l} (hrest : Overlooks value body (k l.isEmpty) l) :
      Overlooks value body (.atEnd k) l
  | literal {β : Type} {k : ν → Prog σ ν ε τ C R β} {o x y l} (hsame : value x = value y)
      (htaken : ∀ v, value x = some (some v) → Overlooks value body (k v) l)
      (hleft : value x = none → Overlooks value body o (some (x, y) :: l)) :
      Overlooks value body (.literal k o) (some (x, y) :: l)
  | literalNone {β : Type} {k : ν → Prog σ ν ε τ C R β} {o l} (hl : l.head?.join = none)
      (hleft : Overlooks value body o l) : Overlooks value body (.literal k o) l
  | call {β : Type} {c : C} {k : R c → Prog σ ν ε τ C R β} {l} (hcall : Overlooks value body (body c) l)
      (hrest : ∀ r l', l' <:+ l → parses value body c (side Prod.fst l) = some (r, side Prod.fst l') →
        Overlooks value body (k r) l') : Overlooks value body (.call c k) l

/-- Both sides are read alike, up to the same place. -/
def ReadAlike (l : List (Option (σ × σ))) (o o' : Option (α × List (Option σ))) : Prop :=
  (∃ a l', l' <:+ l ∧ o = some (a, side Prod.fst l') ∧ o' = some (a, side Prod.snd l')) ∨
    o = none ∧ o' = none

theorem ReadAlike.of_suffix {l l' : List (Option (σ × σ))} {o o' : Option (α × List (Option σ))}
    (h : ReadAlike l' o o') (hl : l' <:+ l) : ReadAlike l o o' := by
  obtain ⟨a, l'', hl', ho, ho'⟩ | ⟨ho, ho'⟩ := h
  · exact .inl ⟨a, l'', hl'.trans hl, ho, ho'⟩
  · exact .inr ⟨ho, ho'⟩

theorem side_twice {f : σ × σ → σ} (hf : ∀ x, f (x, x) = x) (l : List (Option σ)) :
    side f (twice l) = l := by
  unfold side twice
  rw [List.map_map]
  exact List.map_id'' (fun x => by cases x <;> simp [hf]) l

theorem head_side (f : σ × σ → σ) (l : List (Option (σ × σ))) :
    (side f l).head?.join = l.head?.join.map f := by
  rcases l with - | ⟨- | p, l⟩ <;> rfl

theorem isEmpty_side (f : σ × σ → σ) (l : List (Option (σ × σ))) :
    (side f l).isEmpty = l.isEmpty := by
  cases l <;> rfl

variable {value : σ → Option (Option ν)} {body : (c : C) → Prog σ ν ε τ C R (R c)}

theorem suffix_twice {l l' : List (Option σ)} (h : l' <:+ l) : twice l' <:+ twice l := by
  obtain ⟨r, rfl⟩ := h
  exact ⟨twice r, List.map_append.symm⟩

theorem reads_take_of_head {callee : (c : C) → List (Option σ) → Option (R c × List (Option σ))}
    {p : σ → Bool} {k : σ → Prog σ ν ε τ C R α} {o : Prog σ ν ε τ C R α} {l : List (Option σ)}
    (h : l.head?.join = none) : reads value callee (.take p k o) l = reads value callee o l := by
  rcases l with - | ⟨- | x, l⟩
  · rfl
  · rfl
  · cases h

theorem reads_literal_of_head {callee : (c : C) → List (Option σ) → Option (R c × List (Option σ))}
    {k : ν → Prog σ ν ε τ C R α} {o : Prog σ ν ε τ C R α} {l : List (Option σ)}
    (h : l.head?.join = none) : reads value callee (.literal k o) l = reads value callee o l := by
  rcases l with - | ⟨- | x, l⟩
  · rfl
  · rfl
  · cases h

/-- What a program does not tell apart it reads alike. -/
theorem overlooks_reads (hb : ∀ c, (body c).Guarded) {p : Prog σ ν ε τ C R α}
    {l : List (Option (σ × σ))} (h : Overlooks value body p l) :
    ReadAlike l (reads value (parses value body) p (side Prod.fst l))
      (reads value (parses value body) p (side Prod.snd l)) := by
  induction h with
  | same p l =>
    rw [side_twice (fun _ => rfl), side_twice (fun _ => rfl)]
    rcases hr : reads value (parses value body) p l with - | ⟨a, l'⟩
    · exact .inr ⟨rfl, rfl⟩
    · have hl := reads_suffix (fun _ _ _ _ => parses_suffix) p hr
      refine .inl ⟨a, twice l', suffix_twice hl, ?_, ?_⟩ <;> rw [side_twice fun _ => rfl]
  | done a l => exact .inl ⟨a, l, List.suffix_refl _, rfl, rfl⟩
  | fail e l => exact .inr ⟨rfl, rfl⟩
  | failTaken e l => exact .inr ⟨rfl, rfl⟩
  | @take _ p k o x y l htest hsame _ _ ihtaken ihleft =>
    change ReadAlike _ (if p x then reads _ _ (k x) (side Prod.fst l) else
        reads _ _ o (side Prod.fst (some (x, y) :: l)))
      (if p y then reads _ _ (k y) (side Prod.snd l) else
        reads _ _ o (side Prod.snd (some (x, y) :: l)))
    rw [← htest]
    by_cases hp : p x = true
    · rw [if_pos hp, if_pos hp, ← hsame hp]
      exact (ihtaken hp).of_suffix (List.suffix_cons _ _)
    · rw [if_neg hp, if_neg hp]
      exact ihleft (Bool.eq_false_iff.mpr hp)
  | @takeNone _ p k o l hl _ ih =>
    have hside (f : σ × σ → σ) : (side f l).head?.join = none := by rw [head_side, hl, Option.map_none]
    rwa [reads_take_of_head (hside _), reads_take_of_head (hside _)]
  | @look _ k l hsame _ ih =>
    change ReadAlike l (reads _ _ (k (side Prod.fst l).head?.join) _)
      (reads _ _ (k (side Prod.snd l).head?.join) _)
    rwa [head_side, head_side, ← hsame]
  | @atEnd _ k l _ ih =>
    change ReadAlike l (reads _ _ (k (side Prod.fst l).isEmpty) _)
      (reads _ _ (k (side Prod.snd l).isEmpty) _)
    rwa [isEmpty_side, isEmpty_side]
  | @literal _ k o x y l hsame _ _ ihtaken ihleft =>
    simp only [side, List.map_cons, Option.map_some, reads, ← hsame]
    rcases hv : value x with - | - | v
    · exact ihleft hv
    · exact .inr ⟨rfl, rfl⟩
    · exact (ihtaken v hv).of_suffix (List.suffix_cons _ _)
  | @literalNone _ k o l hl _ ih =>
    have hside (f : σ × σ → σ) : (side f l).head?.join = none := by rw [head_side, hl, Option.map_none]
    rwa [reads_literal_of_head (hside _), reads_literal_of_head (hside _)]
  | @call _ c k l _ _ ihcall ihrest =>
    simp only [reads]
    rw [← parses_eq hb, ← parses_eq hb] at ihcall
    obtain ⟨r, l', hl, hfst, hsnd⟩ | ⟨hfst, hsnd⟩ := ihcall
    · rw [hfst, hsnd]
      exact (ihrest r l' hl hfst).of_suffix hl
    · rw [hfst, hsnd]
      exact .inr ⟨rfl, rfl⟩

theorem overlooks_parses (hb : ∀ c, (body c).Guarded) {c : C} {l : List (Option (σ × σ))}
    (h : Overlooks value body (body c) l) :
    ReadAlike l (parses value body c (side Prod.fst l)) (parses value body c (side Prod.snd l)) := by
  rw [parses_eq hb, parses_eq hb]
  exact overlooks_reads hb h

end TokenProgram
