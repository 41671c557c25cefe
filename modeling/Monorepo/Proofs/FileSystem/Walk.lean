import Monorepo.FileSystem.Walk
import Monorepo.Proofs.Path.Parent

/-! Walks that arrive. Each segment leads from one location to the next and may use up links, so a
walk along two lists of segments is a walk along the second from where the first one leads. -/
namespace Monorepo
open Monorepo.Path Component

def Location.ofNames (names : List String) : Location := names.map Utf8.ofString

namespace FileSystem

def Holds (fs : FileSystem) (l : Location) : Prop := ∃ e, fs.entry? l = some e

structure LooksUp (fs : FileSystem) (here : Location) (s : Segment) : Prop where
  named : isBlank s = false
  notUp : s ≠ [dot, dot]
  isDirectory : fs.isDirectoryAt here = true

/-- `s` may be looked up in the directory `here`, and neither the place nor its name is too long. -/
structure Admits (fs : FileSystem) (here : Location) (s : Segment) : Prop where
  named : isBlank s = false
  notUp : s ≠ [dot, dot]
  fits : Utf8.width (Location.path (here ++ [s])).chars < pathLimit
  isDirectory : fs.isDirectoryAt here = true
  short : Utf8.width s ≤ nameLimit

theorem Admits.looksUp {fs : FileSystem} {here : Location} {s : Segment} (h : fs.Admits here s) :
    fs.LooksUp here s :=
  ⟨h.named, h.notUp, h.isDirectory⟩

theorem Admits.isName {fs : FileSystem} {here : Location} {s : Segment} (h : fs.Admits here s)
    (hs : slash ∉ s) : IsName s := by
  have hb := h.named
  simp only [isBlank, Bool.decide_or, Bool.or_eq_false_iff, decide_eq_false_iff_not] at hb
  exact ⟨hb.1, hb.2, h.notUp, hs⟩

/-- From `here` `pending` leads to `there`, every link followed. `links` links may be followed
before, and `left` after that. -/
inductive Leads (fs : FileSystem) :
    (links : Nat) → (here : Location) → (pending : List Segment) →
      (left : Nat) → (there : Location) → Prop
  | stay (k : Nat) (l : Location) : Leads fs k l [] k l
  | blank {k k' : Nat} {l l' : Location} {s : Segment} {rest : List Segment}
    (hs : isBlank s = true) (hd : fs.isDirectoryAt l = true) (h : Leads fs k l rest k' l') :
    Leads fs k l (s :: rest) k' l'
  | up {k k' : Nat} {l l' : Location} {rest : List Segment}
    (hd : fs.isDirectoryAt l = true) (h : Leads fs k l.dropLast rest k' l') :
    Leads fs k l ([dot, dot] :: rest) k' l'
  | down {k k' : Nat} {l l' : Location} {s : Segment} {rest : List Segment} {e : Entry}
    (ha : fs.Admits l s) (he : fs.entry? (l ++ [s]) = some e) (hn : ∀ t, e ≠ .link t)
    (h : Leads fs k (l ++ [s]) rest k' l') : Leads fs k l (s :: rest) k' l'
  | link {k k₁ k' : Nat} {l l₁ l' : Location} {s : Segment} {rest : List Segment} {t : Path}
    (ha : fs.Admits l s) (he : fs.entry? (l ++ [s]) = some (.link t))
    (ht : Leads fs k (if t.isAbsolute then [] else l) (segments t.chars) k₁ l₁)
    (h : Leads fs k₁ l₁ rest k' l') : Leads fs (k + 1) l (s :: rest) k' l'

variable {fs : FileSystem} {k k' k'' : Nat} {l l' l'' : Location} {s : Segment}
  {ss ts : List Segment}

theorem Leads.append (h : Leads fs k l ss k' l') (h' : Leads fs k' l' ts k'' l'') :
    Leads fs k l (ss ++ ts) k'' l'' := by
  induction h with
  | stay => exact h'
  | blank hs hd _ ih => exact .blank hs hd (ih h')
  | up hd _ ih => exact .up hd (ih h')
  | down ha he hn _ ih => exact .down ha he hn (ih h')
  | link ha he ht _ _ ih => exact .link ha he ht (ih h')

theorem Leads.split (h : Leads fs k l (ss ++ ts) k'' l'') :
    ∃ k' l', Leads fs k l ss k' l' ∧ Leads fs k' l' ts k'' l'' := by
  induction ss generalizing k l with
  | nil => exact ⟨k, l, .stay k l, h⟩
  | cons s ss ih =>
    cases h with
    | blank hs hd h =>
      obtain ⟨k', l', h₁, h₂⟩ := ih h
      exact ⟨k', l', .blank hs hd h₁, h₂⟩
    | up hd h =>
      obtain ⟨k', l', h₁, h₂⟩ := ih h
      exact ⟨k', l', .up hd h₁, h₂⟩
    | down ha he hn h =>
      obtain ⟨k', l', h₁, h₂⟩ := ih h
      exact ⟨k', l', .down ha he hn h₁, h₂⟩
    | link ha he ht h =>
      obtain ⟨k', l', h₁, h₂⟩ := ih h
      exact ⟨k', l', .link ha he ht h₁, h₂⟩

/-- What one segment does. -/
theorem Leads.singleton_cases (h : Leads fs k l [s] k' l') :
    (isBlank s = true ∧ fs.isDirectoryAt l = true ∧ k' = k ∧ l' = l) ∨
    (s = [dot, dot] ∧ fs.isDirectoryAt l = true ∧ k' = k ∧ l' = l.dropLast) ∨
    (fs.Admits l s ∧ ((k' = k ∧ l' = l ++ [s] ∧ ∀ t, fs.entry? (l ++ [s]) ≠ some (.link t)) ∨
      ∃ t, fs.entry? (l ++ [s]) = some (.link t))) := by
  cases h with
  | blank hs hd h =>
    cases h
    exact Or.inl ⟨hs, hd, rfl, rfl⟩
  | up hd h =>
    cases h
    exact Or.inr (Or.inl ⟨rfl, hd, rfl, rfl⟩)
  | down ha he hn h =>
    cases h
    refine Or.inr (Or.inr ⟨ha, Or.inl ⟨rfl, rfl, ?_⟩⟩)
    intro t ht
    rw [he] at ht
    exact hn t (Option.some.inj ht)
  | link ha he _ _ => exact Or.inr (Or.inr ⟨ha, Or.inr ⟨_, he⟩⟩)

theorem leads_blank_iff (hs : isBlank s = true) :
    Leads fs k l (s :: ss) k' l' ↔ fs.isDirectoryAt l = true ∧ Leads fs k l ss k' l' := by
  constructor
  · intro h
    cases h with
    | blank _ hd h => exact ⟨hd, h⟩
    | up _ _ => exact absurd hs (by decide)
    | down ha _ _ _ =>
      rw [ha.named] at hs
      cases hs
    | link ha _ _ _ =>
      rw [ha.named] at hs
      cases hs
  · rintro ⟨hd, h⟩
    exact .blank hs hd h

theorem not_isBlank_of_isName (hs : IsName s) : ¬ isBlank s = true := by
  simp [isBlank, hs.1, hs.2.1]

/-- A name that no link has leads one down. -/
theorem Leads.last_name (h : Leads fs k l (ss ++ [s]) k' l') (hs : IsName s)
    (hn : ∀ k₁ m t, Leads fs k l ss k₁ m → fs.Admits m s → fs.entry? (m ++ [s]) ≠ some (.link t)) :
    ∃ m, Leads fs k l ss k' m ∧ l' = m ++ [s] := by
  obtain ⟨k₁, m, h₁, h₂⟩ := h.split
  obtain ⟨hb, -⟩ | ⟨rfl, -⟩ | ⟨ha, ⟨rfl, rfl, -⟩ | ⟨t, ht⟩⟩ := h₂.singleton_cases
  · exact absurd hb (not_isBlank_of_isName hs)
  · exact absurd rfl hs.2.2.1
  · exact ⟨m, h₁, rfl⟩
  · exact absurd ht (hn k₁ m t h₁ ha)

/-- Names that no links have lead down all the way. -/
theorem Leads.names {ns : List Segment} (h : Leads fs k l (ss ++ ns) k' l')
    (hname : ∀ s ∈ ns, IsName s)
    (hn : ∀ us s vs, ns = us ++ s :: vs → ∀ k₁ m t, Leads fs k l (ss ++ us) k₁ m →
      fs.Admits m s → fs.entry? (m ++ [s]) ≠ some (.link t)) :
    ∃ m, Leads fs k l ss k' m ∧ l' = m ++ ns := by
  induction ns using List.reverseRecOn generalizing l' with
  | nil => exact ⟨l', by simpa using h, (List.append_nil l').symm⟩
  | append_singleton ns s ih =>
    rw [← List.append_assoc] at h
    obtain ⟨m₁, h₁, rfl⟩ := h.last_name (hname s (by simp)) (hn ns s [] rfl)
    obtain ⟨m, hm, rfl⟩ := ih h₁ (fun t ht => hname t (by simp [ht])) (by
      rintro us t vs rfl
      exact hn us t (vs ++ [s]) (by simp))
    exact ⟨m, hm, List.append_assoc ..⟩

/-- Links that are left over do no harm. -/
theorem Leads.add (h : Leads fs k l ss k' l') (n : Nat) : Leads fs (k + n) l ss (k' + n) l' := by
  induction h with
  | stay => exact .stay _ _
  | blank hs hd _ ih => exact .blank hs hd ih
  | up hd _ ih => exact .up hd ih
  | down ha he hn _ ih => exact .down ha he hn ih
  | link ha he _ _ ih₁ ih₂ =>
    rw [Nat.add_right_comm]
    exact .link ha he ih₁ ih₂

/-- Wherever segments lead, the names on the way are names. -/
theorem Leads.isName (h : Leads fs k l ss k' l') (hl : ∀ s ∈ l, IsName s)
    (hs : ∀ s ∈ ss, slash ∉ s) : ∀ s ∈ l', IsName s := by
  induction h with
  | stay => exact hl
  | blank _ _ _ ih => exact ih hl fun s hm => hs s (List.mem_cons_of_mem _ hm)
  | up _ _ ih =>
    exact ih (fun s hm => hl s (List.dropLast_subset _ hm))
      fun s hm => hs s (List.mem_cons_of_mem _ hm)
  | down ha _ _ _ ih =>
    refine ih ?_ fun s hm => hs s (List.mem_cons_of_mem _ hm)
    intro s hm
    obtain hm | hm := List.mem_append.mp hm
    · exact hl s hm
    · obtain rfl := List.mem_singleton.mp hm
      exact ha.isName (hs _ List.mem_cons_self)
  | @link _ _ _ l _ _ _ _ t ha _ _ _ ih₁ ih₂ =>
    refine ih₂ (ih₁ ?_ (no_slash_of_mem_segments t.chars)) fun s hm => hs s
      (List.mem_cons_of_mem _ hm)
    split_ifs
    · simp
    · exact hl

variable {how : Manner} {rest : List Segment} {e : Entry} {t : Path}

theorem walk_blank (hs : isBlank s = true) (hd : fs.isDirectoryAt l = true) :
    fs.walk how k l (s :: rest) = fs.walk how k l rest := by
  rw [walk.eq_def]
  simp only [hs, hd, if_true]

theorem walk_up (hd : fs.isDirectoryAt l = true) :
    fs.walk how k l ([dot, dot] :: rest) = fs.walk how k l.dropLast rest := by
  rw [walk.eq_def]
  simp [isBlank, hd]

theorem LooksUp.walk_eq (h : fs.LooksUp l s) (how : Manner) :
    fs.walk how k l (s :: rest) =
      if how.measured ∧ pathLimit ≤ Utf8.width (Location.path (l ++ [s])).chars then
        .error .nameTooLong
      else if nameLimit < Utf8.width s then .error .nameTooLong
      else match fs.entry? (l ++ [s]) with
        | none => if rest = [] then .ok (.free (l ++ [s])) else .error .notFound
        | some (.link t) =>
          if rest = [] ∧ ¬ how.toEnd then .ok (.taken (l ++ [s]))
          else match k with
            | 0 => .error .tooManyLinks
            | k + 1 => fs.walk how k (if t.isAbsolute then [] else l) (segments t.chars ++ rest)
        | some _ => fs.walk how k (l ++ [s]) rest := by
  have hb : ¬ isBlank s = true := by simp [h.named]
  have hd : ¬ ¬ fs.isDirectoryAt l = true := not_not_intro h.isDirectory
  rw [walk.eq_def]
  refine (if_neg hb).trans ((if_neg h.notUp).trans
    (if_congr Iff.rfl rfl ((if_neg hd).trans (if_congr Iff.rfl rfl ?_))))
  cases fs.entry? (l ++ [s]) with
  | none => rfl
  | some e => cases e <;> rfl

/-- Where nothing is too long, only what a name stands for decides how the walk goes on. -/
theorem walk_of_admits (ha : fs.Admits l s) :
    fs.walk how k l (s :: rest) =
      match fs.entry? (l ++ [s]) with
      | none => if rest = [] then .ok (.free (l ++ [s])) else .error .notFound
      | some (.link t) =>
        if rest = [] ∧ ¬ how.toEnd then .ok (.taken (l ++ [s]))
        else match k with
          | 0 => .error .tooManyLinks
          | k + 1 => fs.walk how k (if t.isAbsolute then [] else l) (segments t.chars ++ rest)
      | some _ => fs.walk how k (l ++ [s]) rest := by
  have hfits : ¬ (how.measured = true ∧ pathLimit ≤ Utf8.width (Location.path (l ++ [s])).chars) :=
    fun h => absurd ha.fits (Nat.not_lt.mpr h.2)
  exact (ha.looksUp.walk_eq how).trans ((if_neg hfits).trans (if_neg (Nat.not_lt.mpr ha.short)))

theorem walk_down (ha : fs.Admits l s) (he : fs.entry? (l ++ [s]) = some e)
    (hn : ∀ t, e ≠ .link t) :
    fs.walk how k l (s :: rest) = fs.walk how k (l ++ [s]) rest := by
  rw [walk_of_admits ha, he]
  cases e with
  | directory => rfl
  | file bytes => rfl
  | link t => exact absurd rfl (hn t)

theorem walk_link (ha : fs.Admits l s) (he : fs.entry? (l ++ [s]) = some (.link t))
    (hend : how.toEnd = true ∨ rest ≠ []) :
    fs.walk how (k + 1) l (s :: rest) =
      fs.walk how k (if t.isAbsolute then [] else l) (segments t.chars ++ rest) := by
  have hgo : ¬ (rest = [] ∧ ¬ how.toEnd = true) := by
    rintro ⟨hr, ht⟩
    exact hend.elim ht fun h => h hr
  rw [walk_of_admits ha, he]
  simp only [hgo, if_false]

theorem entry_taken (he : fs.entry? l = some e) : Place.entry fs (.taken l) = .ok e := by
  rw [Place.entry, he]

/-- A walk goes on from where its first segments lead. The last of these is followed even if it is a
link that would be left alone at the end of a walk. -/
theorem walk_append (h : Leads fs k l ss k' l') (hend : how.toEnd = true ∨ ts ≠ []) :
    fs.walk how k l (ss ++ ts) = fs.walk how k' l' ts := by
  induction h generalizing ts with
  | stay => rfl
  | blank hs hd _ ih => rw [List.cons_append, walk_blank hs hd, ih hend]
  | up hd _ ih => rw [List.cons_append, walk_up hd, ih hend]
  | down ha he hn _ ih => rw [List.cons_append, walk_down ha he hn, ih hend]
  | @link _ _ _ _ _ _ _ rest _ ha he _ _ ih₁ ih₂ =>
    have hrest : how.toEnd = true ∨ rest ++ ts ≠ [] :=
      hend.imp_right (List.append_ne_nil_of_right_ne_nil rest)
    rw [List.cons_append, walk_link ha he hrest, ih₁ hrest, ih₂ hend]

theorem admits_of_walk (hb : ¬ isBlank s = true) (hu : s ≠ [dot, dot])
    (h : fs.walk ⟨true, true⟩ k l (s :: rest) = .ok (.taken l')) : fs.Admits l s := by
  rw [walk.eq_def] at h
  simp only [hb, hu, Bool.false_eq_true, if_false] at h
  by_cases hm : pathLimit ≤ Utf8.width (Location.path (l ++ [s])).chars
  · simp [hm] at h
  by_cases hd : fs.isDirectoryAt l = true
  · by_cases hs : nameLimit < Utf8.width s
    · simp [hm, hd, hs] at h
    · exact ⟨by simpa using hb, hu, Nat.not_le.mp hm, hd, Nat.not_lt.mp hs⟩
  · simp [hm, hd] at h

/-- What the first segment of a walk that arrives has done. -/
theorem walk_cons_cases (h : fs.walk ⟨true, true⟩ k l (s :: rest) = .ok (.taken l')) :
    (isBlank s = true ∧ fs.isDirectoryAt l = true ∧
      fs.walk ⟨true, true⟩ k l rest = .ok (.taken l')) ∨
    (s = [dot, dot] ∧ fs.isDirectoryAt l = true ∧
      fs.walk ⟨true, true⟩ k l.dropLast rest = .ok (.taken l')) ∨
    (fs.Admits l s ∧ ((∃ e, fs.entry? (l ++ [s]) = some e ∧ (∀ t, e ≠ .link t) ∧
        fs.walk ⟨true, true⟩ k (l ++ [s]) rest = .ok (.taken l')) ∨
      ∃ t n, fs.entry? (l ++ [s]) = some (.link t) ∧ k = n + 1 ∧
        fs.walk ⟨true, true⟩ n (if t.isAbsolute then [] else l) (segments t.chars ++ rest) =
          .ok (.taken l'))) := by
  by_cases hb : isBlank s = true
  · by_cases hd : fs.isDirectoryAt l = true
    · rw [walk_blank hb hd] at h
      exact Or.inl ⟨hb, hd, h⟩
    · rw [walk.eq_def] at h
      simp [hb, hd] at h
  · by_cases hu : s = [dot, dot]
    · subst hu
      by_cases hd : fs.isDirectoryAt l = true
      · rw [walk_up hd] at h
        exact Or.inr (Or.inl ⟨rfl, hd, h⟩)
      · rw [walk.eq_def] at h
        simp [hb, hd] at h
    · have ha := admits_of_walk hb hu h
      refine Or.inr (Or.inr ⟨ha, ?_⟩)
      rw [walk_of_admits ha] at h
      cases he : fs.entry? (l ++ [s]) with
      | none =>
        rw [he] at h
        dsimp only at h
        split_ifs at h
        cases h
      | some e =>
        rw [he] at h
        cases e with
        | directory => exact Or.inl ⟨_, rfl, by simp, h⟩
        | file bytes => exact Or.inl ⟨_, rfl, by simp, h⟩
        | link t =>
          cases k with
          | zero => simp at h
          | succ n => exact Or.inr ⟨t, n, rfl, rfl, by simpa using h⟩

/-- A walk to the end arrives just where its segments lead. -/
theorem walk_eq_taken_iff :
    fs.walk ⟨true, true⟩ k l ss = .ok (.taken l') ↔ ∃ k', Leads fs k l ss k' l' := by
  constructor
  · -- a link that is followed leaves fewer of them, and all else leaves fewer segments
    induction k using Nat.strongRecOn generalizing l ss with
    | ind k ihk =>
      induction ss generalizing l with
      | nil =>
        intro h
        rw [walk] at h
        cases h
        exact ⟨k, .stay k _⟩
      | cons s ss ih =>
        intro h
        obtain ⟨hb, hd, hw⟩ | ⟨rfl, hd, hw⟩ | ⟨ha, ⟨e, he, hn, hw⟩ | ⟨t, n, he, rfl, hw⟩⟩ :=
          walk_cons_cases h
        · exact (ih hw).imp fun _ h => .blank hb hd h
        · exact (ih hw).imp fun _ h => .up hd h
        · exact (ih hw).imp fun _ h => .down ha he hn h
        · obtain ⟨k', h⟩ := ihk n (Nat.lt_succ_self n) hw
          obtain ⟨k₁, l₁, h₁, h₂⟩ := h.split
          exact ⟨k', .link ha he h₁ h₂⟩
  · rintro ⟨k', h⟩
    have hw : fs.walk ⟨true, true⟩ k l (ss ++ []) = fs.walk ⟨true, true⟩ k' l' [] :=
      walk_append h (Or.inl rfl)
    rwa [List.append_nil, walk] at hw

end FileSystem
end Monorepo
