import Mathlib.Data.List.Forall2
import Monorepo.Proofs.Path.Below
import Monorepo.Proofs.Resolver.Spelling

/-! Packages in two places. Whatever is looked at lies below the directory that the packages were
put in, so relative answers are the same wherever that is. -/
namespace Monorepo
open Monorepo.Path Component

def BothFailOr {ε α : Type*} (R : α → α → Prop) (x y : Except ε α) : Prop :=
  (∃ e f, x = .error e ∧ y = .error f) ∨ ∃ a b, x = .ok a ∧ y = .ok b ∧ R a b

/-- The same package with its root below `A` and below `B`. It keeps to itself: no directory of it
is found by going up. -/
structure Package.Relocated (A B : Path) (p q : Package) : Prop where
  root : ∃ x : Path, x.Confined ∧ p.root.denotesSame (A.join x) = true ∧
    q.root.denotesSame (B.join x) = true
  others : q = { p with root := q.root }
  source : (Path.ofString p.source).Confined
  output : ∀ s, p.output = some s → (Path.ofString s).Confined
  entry : (Path.ofString p.entry).Confined

structure Resolver.Relocated (A B : Path) (r s : Resolver) : Prop where
  settings : r.settings = s.settings
  packages : List.Forall₂ (Package.Relocated A B) r.packages s.packages
  /-- A file that is there is itself below the base, or a link to what is. -/
  realPath : ∀ x : Path, x.Confined →
    BothFailOr (Option.Rel fun a b => ∃ y : Path, y.Confined ∧ y.normalize ≠ empty ∧
        a.denotesSame (A.join y) = true ∧ b.denotesSame (B.join y) = true)
      (r.probe.realPath (A.join x).normalize) (s.probe.realPath (B.join x).normalize)
  present : ∀ x : Path, x.Confined →
    BothFailOr Eq (r.probe.present (A.join x).normalize) (s.probe.present (B.join x).normalize)

inductive Specifier.Relocated (A B : Path) : Specifier → Specifier → Prop
  | relative : Relocated A B .relative .relative
  | aliased (p q : Package) (rest : List Char) (h : p.Relocated A B q) :
    Relocated A B (.aliased p rest) (.aliased q rest)
  | ownName (p q : Package) (rest : List Char) (h : p.Relocated A B q) :
    Relocated A B (.ownName p rest) (.ownName q rest)
  | module : Relocated A B .module .module

theorem Specifier.classify_relocated {A B : Path} (c : Settings) {o o' : Option Package}
    (h : Option.Rel (Package.Relocated A B) o o') (target : String) :
    Specifier.Relocated A B (classify c o target) (classify c o' target) := by
  unfold classify
  by_cases hr : isRelative target = true
  · rw [if_pos hr, if_pos hr]
    exact .relative
  · rw [if_neg hr, if_neg hr]
    cases h with
    | none => exact .module
    | @some p q hpq =>
      have ha : q.aliasToken = p.aliasToken := by rw [hpq.others]
      have hn : q.name = p.name := by rw [hpq.others]
      dsimp only
      rw [ha, hn]
      cases stripToken? target.toList p.aliasToken.toList with
      | some rest =>
        dsimp only
        split_ifs
        · exact .aliased p q rest hpq
        · exact .module
      | none =>
        cases stripToken? target.toList (p.name.getD "").toList with
        | some rest =>
          dsimp only
          split_ifs
          · exact .ownName p q rest hpq
          · exact .module
        | none => exact .module

namespace Resolver

theorem option_rel_cases {α β : Type*} {R : α → β → Prop} {x : Option α} {y : Option β}
    (h : Option.Rel R x y) :
    (x = none ∧ y = none) ∨ ∃ a b, x = some a ∧ y = some b ∧ R a b := by
  cases h with
  | none => exact Or.inl ⟨rfl, rfl⟩
  | @some a b hab => exact Or.inr ⟨a, b, rfl, rfl, hab⟩

theorem findSome?_zipIdx_rel {α β γ δ : Type*} {R : α → β → Prop} {S : γ → δ → Prop}
    {f : α × Nat → Option γ} {g : β × Nat → Option δ} {l : List α} {m : List β}
    (h : List.Forall₂ R l m) (hf : ∀ a b n, R a b → Option.Rel S (f (a, n)) (g (b, n))) (k : Nat) :
    Option.Rel S ((l.zipIdx k).findSome? f) ((m.zipIdx k).findSome? g) := by
  induction h generalizing k with
  | nil => exact .none
  | @cons a b l m hab _ ih =>
    rw [List.zipIdx_cons, List.zipIdx_cons, List.findSome?_cons, List.findSome?_cons]
    obtain ⟨hfa, hgb⟩ | ⟨c, d, hfa, hgb, hcd⟩ := option_rel_cases (hf a b k hab)
    · rw [hfa, hgb]
      exact ih (k + 1)
    · rw [hfa, hgb]
      exact .some hcd

variable {A B : Path} {r s : Resolver}

def SameFind (A B : Path) {α : Type} (x y : Package × α) : Prop :=
  x.1.Relocated A B y.1 ∧ x.2 = y.2

theorem packageNamed?_relocated (h : r.Relocated A B s) (target : List Char) :
    Option.Rel (SameFind A B) (r.packageNamed? target) (s.packageNamed? target) := by
  apply findSome?_zipIdx_rel h.packages
  intro p q n hpq
  have hn : q.name = p.name := by rw [hpq.others]
  dsimp only
  rw [hn]
  cases stripToken? target (p.name.getD "").toList with
  | none => exact .none
  | some rest => exact .some ⟨hpq, rfl⟩

variable (hA : A.IsBase) (hB : B.IsBase)
include hA hB

theorem twins_root {p q : Package} (h : p.Relocated A B q) : Twins A B p.root q.root := by
  obtain ⟨x, hx, hp, hq⟩ := h.root
  exact ⟨x.place, (hA.liesAt_join x hx).congr hp, (hB.liesAt_join x hx).congr hq⟩

theorem packageOf?_relocated (h : r.Relocated A B s) {path path' : Path}
    (hp : Twins A B path path') :
    Option.Rel (SameFind A B) (r.packageOf? path) (s.packageOf? path') := by
  rw [packageOf?, packageOf?, List.find?_eq_findSome?_guard, List.find?_eq_findSome?_guard]
  apply findSome?_zipIdx_rel h.packages
  intro p q n hpq
  rw [Option.guard_apply, Option.guard_apply, hp.isWithin (twins_root hA hB hpq)]
  split_ifs
  · exact .some ⟨hpq, rfl⟩
  · exact .none

theorem present_relocated (h : r.Relocated A B s) {p q : Path} (hp : Twins A B p q) :
    BothFailOr Eq (r.probe.present p.normalize) (s.probe.present q.normalize) := by
  obtain ⟨x, hx, hpx, hqx⟩ := hp.exists_join hA hB
  rw [hpx, hqx]
  exact h.present x hx

theorem outputOr_relocated {p q : Package} (h : p.Relocated A B q) (mode : Mode)
    (otherwise : String) (ho : (Path.ofString otherwise).Confined) :
    Twins A B (p.outputOr mode otherwise) (q.outputOr mode otherwise) := by
  have hr := twins_root hA hB h
  have hq : q.output = p.output := by rw [h.others]
  unfold Package.outputOr
  rw [hq]
  cases mode with
  | development => exact hr.join _ ho
  | production =>
    cases hp : p.output with
    | none => exact hr.join _ ho
    | some out => exact hr.join _ (h.output out hp)

theorem sourcesPath_relocated {p q : Package} (h : p.Relocated A B q) (rest : List Char)
    (hrest : (Path.ofChars (trimSlashes rest)).Confined) :
    Twins A B (sourcesPath p rest) (sourcesPath q rest) := by
  have hq : q.source = p.source := by rw [h.others]
  unfold sourcesPath Package.sourceDir
  rw [hq]
  exact (((twins_root hA hB h).join _ h.source).join _ hrest).normalize

theorem packagePath?_relocated (hs : r.settings = s.settings) {p q : Package}
    (h : p.Relocated A B q) (rest : List Char) (isThere : Bool)
    (hrest : (Path.ofChars rest).Confined) :
    Option.Rel (Twins A B) (r.packagePath? p rest isThere) (s.packagePath? q rest isThere) := by
  have hsource : q.source = p.source := by rw [h.others]
  have hentry : q.entry = p.entry := by rw [h.others]
  have hd := outputOr_relocated hA hB h s.settings.mode
  unfold packagePath? directCandidate Package.packageDir Package.entryDir
  rw [hs, hsource, hentry]
  split_ifs
  · exact .some (hd p.entry h.entry).normalize
  · exact .some ((twins_root hA hB h).join _ hrest).normalize
  · exact .some ((hd p.source h.source).join _ hrest).normalize
  · exact .none

theorem modulePath?_relocated (h : r.Relocated A B s) {o o' : Option (Package × Nat)}
    (ho : Option.Rel (SameFind A B) o o') (target : List Char)
    (ht : parent ∉ (Path.ofChars target).components) :
    BothFailOr (Option.Rel (Twins A B)) (r.modulePath? o target) (s.modulePath? o' target) := by
  have hany (n : Nat) : o.any (·.2 == n) = o'.any (·.2 == n) := by
    cases ho with
    | none => rfl
    | some hxy => simp [hxy.2]
  unfold modulePath?
  obtain ⟨hr, hs⟩ | ⟨⟨p, n, rest⟩, ⟨q, m, rest'⟩, hr, hs, hpq, heq⟩ :=
    option_rel_cases (packageNamed?_relocated h target)
  · rw [hr, hs]
    exact Or.inr ⟨none, none, rfl, rfl, .none⟩
  · cases heq
    rw [hr, hs]
    dsimp only
    rw [hany n]
    have hrest := confined_rest target _ rest (r.packageNamed?_some target p n rest hr).2 ht
    have hprobe := present_relocated hA hB h ((twins_root hA hB hpq).join _ hrest)
    unfold directCandidate
    split_ifs
    · exact Or.inr ⟨none, none, rfl, rfl, .none⟩
    · obtain ⟨e, f, he, hf⟩ | ⟨isThere, _, he, hf, rfl⟩ := hprobe
      · rw [he, hf]
        exact Or.inl ⟨_, _, rfl, rfl⟩
      · rw [he, hf]
        exact Or.inr ⟨_, _, rfl, rfl,
          packagePath?_relocated hA hB h.settings hpq _ isThere hrest⟩

/-- Where a specifier leads: from the importing file in the same way, or below both bases to the
same place. -/
def SameEnd (A B p q : Path) : Prop := (p.isAbsolute = false ∧ p = q) ∨ Twins A B p q

theorem destination?_relocated (h : r.Relocated A B s) {real real' : Path}
    (hp : Twins A B real real') (target : String)
    (ht : Specifier.isRelative target = true ∨ parent ∉ (Path.ofString target).components) :
    BothFailOr (Option.Rel (SameEnd A B)) (r.destination? target real)
      (s.destination? target real') := by
  have ho := packageOf?_relocated hA hB h hp
  have ho' : Option.Rel (Package.Relocated A B) ((r.packageOf? real).map (·.1))
      ((s.packageOf? real').map (·.1)) := by
    obtain ⟨hr, hs⟩ | ⟨x, y, hr, hs, hxy⟩ := option_rel_cases ho
    · rw [hr, hs]
      exact .none
    · rw [hr, hs]
      exact .some hxy.1
  have hc := Specifier.classify_relocated r.settings ho' target
  have hspec := Specifier.classify_spec r.settings ((r.packageOf? real).map (·.1)) target
  unfold destination? specifierAt
  rw [← h.settings]
  -- the look-ups enter through the kinds only
  generalize Specifier.classify r.settings ((r.packageOf? real).map (·.1)) target = c at hc hspec ⊢
  generalize Specifier.classify r.settings ((s.packageOf? real').map (·.1)) target = c' at hc ⊢
  have hup (hr : Specifier.isRelative target = false) :
      parent ∉ (Path.ofChars target.toList).components := by
    obtain ht | ht := ht
    · rw [hr] at ht
      cases ht
    · exact ht
  cases hc with
  | relative =>
    exact Or.inr ⟨_, _, rfl, rfl,
      .some (Or.inl ⟨Specifier.isAbsolute_of_isRelative target hspec, rfl⟩)⟩
  | aliased p q rest hpq =>
    obtain ⟨-, hr, -, hs⟩ := hspec
    have hrest := confined_rest _ _ rest hs (hup hr)
    exact Or.inr ⟨_, _, rfl, rfl, .some (Or.inr (sourcesPath_relocated hA hB hpq rest hrest))⟩
  | ownName p q rest hpq =>
    obtain ⟨-, hr, -, -, hs⟩ := hspec
    have hrest := confined_rest _ _ rest hs (hup hr)
    exact Or.inr ⟨_, _, rfl, rfl, .some (Or.inr (sourcesPath_relocated hA hB hpq rest hrest))⟩
  | module =>
    obtain ⟨e, f, he, hf⟩ | ⟨path?, path?', he, hf, hpath⟩ :=
      modulePath?_relocated hA hB h ho target.toList (hup hspec.1)
    · exact Or.inl ⟨e, f, he, hf⟩
    · refine Or.inr ⟨path?, path?', he, hf, ?_⟩
      cases hpath with
      | none => exact .none
      | some hab => exact .some (Or.inr hab)

theorem realFile_relocated (h : r.Relocated A B s) (o : Path) (ho : o.Confined)
    (hne : o.normalize ≠ empty) :
    BothFailOr (fun p q => ∃ ns, ns ≠ [] ∧ LiesAt A ns p ∧ LiesAt B ns q)
      (r.realFile (A.join o)) (s.realFile (B.join o)) := by
  have hplain : ∃ ns, ns ≠ [] ∧ LiesAt A ns (A.join o).normalize ∧
      LiesAt B ns (B.join o).normalize :=
    ⟨o.place, ho.place_ne_nil hne, (hA.liesAt_join o ho).normalize, (hB.liesAt_join o ho).normalize⟩
  rw [realFile_eq, realFile_eq, h.settings]
  split_ifs
  · obtain ⟨e, f, he, hf⟩ | ⟨a, b, ha, hb, hab⟩ := h.realPath o ho
    · rw [he, hf]
      exact Or.inl ⟨_, _, rfl, rfl⟩
    · rw [ha, hb]
      refine Or.inr ⟨_, _, rfl, rfl, ?_⟩
      obtain ⟨rfl, rfl⟩ | ⟨p, q, rfl, rfl, y, hy, hyne, hp, hq⟩ := option_rel_cases hab
      · exact hplain
      · exact ⟨y.place, hy.place_ne_nil hyne, (hA.liesAt_join y hy).congr hp,
          (hB.liesAt_join y hy).congr hq⟩
  · exact Or.inr ⟨_, _, rfl, rfl, hplain⟩

omit hA hB in
/-- Seen from corresponding directories, what corresponds is spelled alike. -/
theorem spell_relocated {p q dir dir' : Path} (hd : Twins A B dir dir') (h : SameEnd A B p q)
    (target : List Char) : spell target p dir true = spell target q dir' true := by
  have hseen : seenFrom p.normalize dir = seenFrom q.normalize dir' := by
    obtain ⟨hp, rfl⟩ | h := h
    · have hn : p.normalize.isAbsolute = false := by rw [isAbsolute_normalize, hp]
      simp [seenFrom, hn]
    · have hn := h.normalize
      obtain ⟨ns, hp, hq⟩ := hn
      rw [seenFrom, seenFrom, if_pos hp.isAbsolute, if_pos hq.isAbsolute]
      exact h.normalize.relativeTo hd
  have hpath : spelledPath p.normalize dir = spelledPath q.normalize dir' := by
    rw [spelledPath, spelledPath, hseen]
  rw [spell_eq, spell_eq, if_pos rfl, if_pos rfl, spellRelative_eq, spellRelative_eq, hpath]

/-- Relative answers do not tell where the packages are. -/
theorem resolve_relocated (h : r.Relocated A B s) (o : Path) (ho : o.Confined)
    (hne : o.normalize ≠ empty) (target : String)
    (ht : Specifier.isRelative target = true ∨ parent ∉ (Path.ofString target).components) :
    BothFailOr Eq (r.resolve target (A.join o) true) (s.resolve target (B.join o) true) := by
  obtain ⟨e, f, he, hf⟩ | ⟨p, q, hp, hq, ns, hns, hpA, hqB⟩ := realFile_relocated hA hB h o ho hne
  · exact Or.inl ⟨e, f, resolve_of_realFile_error he, resolve_of_realFile_error hf⟩
  · obtain ⟨e, f, he, hf⟩ | ⟨path?, path?', he, hf, hpath⟩ :=
      destination?_relocated hA hB h ⟨ns, hpA, hqB⟩ target ht
    · exact Or.inl ⟨e, f, resolve_of_destination_error hp he, resolve_of_destination_error hq hf⟩
    · refine Or.inr ⟨_, _, resolve_of_destination hp he, resolve_of_destination hq hf, ?_⟩
      obtain ⟨dir, hdir, hdirA⟩ := hpA.parent? hns
      obtain ⟨dir', hdir', hdirB⟩ := hqB.parent? hns
      have hd : Twins A B (originDir p) (originDir q) := by
        rw [originDir, originDir, hdir, hdir']
        exact ⟨_, hdirA, hdirB⟩
      cases hpath with
      | none => rfl
      | some hab => exact congrArg String.ofList (spell_relocated hd hab target.toList)

omit hA hB

def checkout (A : Path) : Resolver where
  settings := {}
  packages :=
    [⟨some "app", A.join (.ofString "app"), "src", none, "src", "~"⟩,
      ⟨some "lib", A.join (.ofString "lib"), "src", some "dist", "src/main", "~"⟩]
  probe := ⟨fun _ => .ok (some (A.join (.ofString "app/src/f.js"))), fun _ => .ok false⟩

theorem checkout_relocated (A B : Path) : (checkout A).Relocated A B (checkout B) := by
  have hsame (p : Path) : p.denotesSame p = true := beq_self_eq_true p.components
  have hsource : (Path.ofString "src").Confined := by decide
  have hentry : (Path.ofString "src/main").Confined := by decide
  refine ⟨rfl, ?_, ?_, ?_⟩
  · refine .cons ⟨⟨.ofString "app", by decide, hsame _, hsame _⟩, rfl, hsource, ?_, hsource⟩
      (.cons ⟨⟨.ofString "lib", by decide, hsame _, hsame _⟩, rfl, hsource, ?_, hentry⟩ .nil)
    · intro out hout
      cases hout
    · intro out hout
      cases hout
      decide
  · intro x _
    exact Or.inr ⟨_, _, rfl, rfl,
      .some ⟨.ofString "app/src/f.js", by decide, by decide, hsame _, hsame _⟩⟩
  · intro x _
    exact Or.inr ⟨false, false, rfl, rfl, rfl⟩

theorem resolve_relocated_checkout :
    (Path.ofString "/").IsBase ∧ (Path.ofString "/x/y").IsBase ∧
    (checkout (.ofString "/")).Relocated (.ofString "/") (.ofString "/x/y")
      (checkout (.ofString "/x/y")) ∧
    BothFailOr Eq ((checkout (.ofString "/")).resolve "lib/a/"
        ((Path.ofString "/").join (.ofString "link.js")) true)
      ((checkout (.ofString "/x/y")).resolve "lib/a/"
        ((Path.ofString "/x/y").join (.ofString "link.js")) true) := by
  have hA : (Path.ofString "/").IsBase := ⟨by decide, by decide⟩
  have hB : (Path.ofString "/x/y").IsBase := ⟨by decide, by decide⟩
  have h := checkout_relocated (.ofString "/") (.ofString "/x/y")
  exact ⟨hA, hB, h, resolve_relocated hA hB h (.ofString "link.js") (by decide) (by decide)
    "lib/a/" (Or.inr (by decide))⟩

example : (checkout (.ofString "/x/y")).resolve "lib/a/" (.ofString "/x/y/link.js") true =
    .ok "../../lib/src/a/" := by decide

end Resolver
end Monorepo
