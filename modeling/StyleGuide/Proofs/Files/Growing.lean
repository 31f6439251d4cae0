import StyleGuide.Proofs.Files.Writing

/-!
# Trees that grow

A file that is written leaves another place alone, if neither is above the other: all that can
happen on the way to that place is that a directory is made where nothing was (`Grown.write`). In a
tree where everything is inside of a directory there was nothing at the place then, and there is
nothing now. So what is read at the place is the same, or the same fault (`Grown.readAt_eq`).
-/

namespace StyleGuide.FileTree

variable {t u : FileTree} {l m : Location}

/-! ### Trees that have grown -/

/-- Up to a place, the second tree is the first one, perhaps with directories above the place where
nothing was. -/
def Grown (t u : FileTree) (l : Location) : Prop :=
  ∀ d, d <+: l → u.lookup? d = t.lookup? d ∨ d ≠ l ∧ t.lookup? d = none ∧ u.lookup? d = some .dir

theorem Grown.refl (t : FileTree) (l : Location) : t.Grown t l := fun _ _ => .inl rfl

/-- What was there is there still. -/
theorem Grown.lookup?_eq {n : Node} (h : t.Grown u l) {d : Location} (hd : d <+: l)
    (hn : t.lookup? d = some n) :
    u.lookup? d = some n := by
  rcases h d hd with heq | ⟨-, hnone, -⟩
  · rw [heq, hn]
  · rw [hn] at hnone
    cases hnone

/-- At the place itself nothing has changed. -/
theorem Grown.lookup?_self (h : t.Grown u l) : u.lookup? l = t.lookup? l := by
  rcases h l List.prefix_rfl with heq | ⟨hne, -⟩
  · exact heq
  · exact absurd rfl hne

/-- Two places of which neither is above the other. -/
def Apart (l m : Location) : Prop := ¬ l <+: m ∧ ¬ m <+: l

theorem Apart.symm (h : Apart l m) : Apart m l := ⟨h.2, h.1⟩

/-- A file that is written elsewhere brings nothing but directories. -/
theorem Grown.write (h : t.Grown u l) (hm : m ≠ []) (hapart : Apart l m) (bytes : List UInt8) :
    t.Grown (u.write m bytes) l := by
  intro d hd
  have hdm : d ≠ m := by
    rintro rfl
    exact hapart.2 hd
  rw [lookup?_write _ _ _ _ hm, if_neg hdm]
  by_cases habove : d <+: m.dropLast
  · have hdl : d ≠ l := by
      rintro rfl
      exact hapart.1 (habove.trans (List.dropLast_prefix m))
    rw [if_pos habove]
    rcases h d hd with heq | ⟨-, hnone, hdir⟩
    · rw [heq]
      cases hlookup : t.lookup? d with
      | none => exact .inr ⟨hdl, rfl, rfl⟩
      | some n => exact .inl rfl
    · rw [hdir]
      exact .inr ⟨hdl, hnone, rfl⟩
  · rw [if_neg habove, Option.or_none]
    exact h d hd

/-! ### Reading in a grown tree -/

/-- A walk that misses nothing is the same in a tree that has grown. -/
theorem Grown.walk_eq {parts : List String} (hplain : IsPlain parts) (h : t.Grown u (l ++ parts))
    (hwalk : t.walk l parts ≠ .error .missing) : u.walk l parts = t.walk l parts := by
  induction parts generalizing l with
  | nil => rfl
  | cons name parts ih =>
    obtain ⟨hname, hparts⟩ := List.forall_mem_cons.mp hplain
    -- What the walk comes by was there before, so growth has not changed it.
    have hkept {n : Node} (hn : t.lookup? l = some n) : u.lookup? l = some n :=
      h.lookup?_eq (List.prefix_append l _) hn
    rw [walk] at hwalk
    rw [walk, walk]
    cases hlookup : t.lookup? l with
    | none =>
      rw [hlookup] at hwalk
      exact absurd rfl hwalk
    | some n =>
      rw [hlookup] at hwalk
      rw [hkept hlookup]
      cases n with
      | file bytes => rfl
      | dir =>
        dsimp only at hwalk ⊢
        split
        · rfl
        · next hshort =>
          rw [if_neg hshort] at hwalk
          rw [stepLexically_of_plain hname] at hwalk ⊢
          exact ih hparts (by rwa [List.append_assoc]) hwalk

/-- What is read at a place is the same after the tree has grown there, if nothing missing hides a
name that is too long. -/
theorem Grown.readAt_eq (h : t.Grown u l) (ht : t.Connected) (hplain : IsPlain l)
    (hshort : t.readAt l = .error (.missing l.text) → l.any isTooLong = false) :
      u.readAt l = t.readAt l := by
  cases htext : textFault? l.text with
  | some fault => rw [readAt, readAt, findAt, findAt, htext]
  | none =>
    have hread (v : FileTree) : v.readAt l = bytesOf l.text (v.findFrom [] l) := by
      rw [readAt, findAt, htext]
    have hhere := h.lookup?_self
    by_cases hwalk : t.walk [] l = .error .missing
    · -- Nothing is at the place before, and nothing but directories above it, before and after.
      have hmissing : t.readAt l = .error (.missing l.text) := by
        rw [hread, findFrom, hwalk]
        rfl
      obtain ⟨hnone, hfree⟩ := ht.freeAt_of_missing hplain hmissing
      rw [hnone] at hhere
      rcases readAt_cases hplain u with ⟨_, -, hfile, -⟩ | ⟨hread, -⟩ | ⟨-, hdir⟩ |
        ⟨-, k, hk, bytes, hfile⟩ |
        ⟨-, hfault | hlong⟩
      · rw [hhere] at hfile
        cases hfile
      · rw [hread, hmissing]
      · rw [hhere] at hdir
        cases hdir
      · rcases h (l.take k) (List.take_prefix k l) with heq | ⟨-, -, hdir⟩
        · rw [hfile] at heq
          rcases hfree.above k hk with hdir | hnone
          · rw [hdir] at heq
            cases heq
          · rw [hnone] at heq
            cases heq
        · rw [hfile] at hdir
          cases hdir
      · exact absurd htext hfault
      · rw [hshort hmissing] at hlong
        cases hlong
    · have hsame : u.walk [] l = t.walk [] l := Grown.walk_eq hplain h hwalk
      have hplace : t.walk [] l = .ok l ∨ ∃ fault, t.walk [] l = .error fault := by
        rcases walk_cases hplain t [] with ⟨hok, -⟩ | ⟨hfault, -⟩ | ⟨hfault, -⟩ | ⟨hfault, -⟩
        · exact .inl hok
        · exact .inr ⟨_, hfault⟩
        · exact .inr ⟨_, hfault⟩
        · exact .inr ⟨_, hfault⟩
      rw [hread, hread, findFrom, findFrom, hsame]
      rcases hplace with hok | ⟨fault, hfault⟩
      · rw [hok]
        dsimp only
        rw [hhere]
      · rw [hfault]

end StyleGuide.FileTree
