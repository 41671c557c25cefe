import Monorepo.Proofs.Resolver.Record

/-! What a resolution warns of. A warning names a flaw of the configuration only where the flaw
is. -/
namespace Monorepo
namespace Trace

@[simp] theorem warnings_append (t u : Trace) : (t ++ u).warnings = t.warnings ++ u.warnings := rfl

@[simp] theorem warnings_step (name : String) (ok : Bool) (path : Option Path) (detail : String) :
    (Recorder.step .on name ok path detail).warnings = [] := rfl

@[simp] theorem warnings_warning (code message : String) :
    (Recorder.warning .on code message).warnings = [⟨code, message⟩] := rfl

end Trace

namespace Resolver

def MayWarn (r : Resolver) (w : Trace.Warning) : Prop :=
  (w.code = "origin_missing" ∧ r.settings.resolveLinks = true) ∨
  (w.code = "no_dest" ∧ r.settings.mode = .production ∧ r.settings.resolvePackages = true ∧
    ∃ p ∈ r.packages, p.output = none) ∨
  w.code = "not_rewritten"

variable {r : Resolver} {p : Package} {rest : List Char} {isThere : Bool} {w : Trace.Warning}

theorem mayWarn_realOrigin {origin real : Path} {opened : Trace}
    (h : r.realOrigin .on origin = .ok (real, opened)) (hw : w ∈ opened.warnings) :
    r.MayWarn w := by
  unfold realOrigin at h
  dsimp only at h
  split_ifs at h with hl
  · split at h
    · cases h
    · cases h
      obtain rfl := List.mem_singleton.mp hw
      exact Or.inl ⟨rfl, hl⟩
    · cases h
      cases hw
  · cases h
    cases hw

theorem warnings_originStep (o? : Option (Package × Nat)) : (originStep .on o?).warnings = [] := by
  cases o? <;> rfl

theorem mayWarn_intoPackage (hp : p ∈ r.packages)
    (hw : w ∈ (r.intoPackage .on p rest isThere).2.warnings) : r.MayWarn w := by
  unfold intoPackage at hw
  dsimp only at hw
  split_ifs at hw with _ hr ho
  · simp at hw
  · obtain rfl : w = _ := by simpa using hw
    have hmode : r.settings.mode = .production := by simpa [Mode.isProduction] using ho.1
    exact Or.inr (Or.inl ⟨rfl, hmode, hr, p, hp, Option.isNone_iff_eq_none.mp ho.2⟩)
  · simp at hw
  · simp at hw

theorem mayWarn_intoEntry (hp : p ∈ r.packages)
    (hw : w ∈ (r.intoEntry .on p rest isThere).2.warnings) : r.MayWarn w := by
  unfold intoEntry at hw
  dsimp only at hw
  split_ifs at hw
  · rw [Trace.warnings_append, Trace.warnings_step, List.append_nil] at hw
    exact mayWarn_intoPackage hp hw
  · rw [Trace.warnings_append, List.mem_append] at hw
    obtain hw | hw := hw
    · exact mayWarn_intoPackage hp hw
    · obtain rfl := List.mem_singleton.mp hw
      exact Or.inr (Or.inr rfl)
  · exact mayWarn_intoPackage hp hw

theorem mayWarn_intoModule {o? : Option (Package × Nat)} {target : List Char} {path? : Option Path}
    {mapped : Trace} (h : r.intoModule .on o? target = .ok (path?, mapped))
    (hw : w ∈ mapped.warnings) : r.MayWarn w := by
  obtain ⟨-, rfl⟩ | ⟨p, n, rest, _, hn, rfl, ⟨-, rfl⟩ | ⟨isThere, -, rfl⟩⟩ :=
    r.intoModule_cases .on o? target path? mapped h
  · cases hw
  · obtain rfl := List.mem_singleton.mp hw
    exact Or.inr (Or.inr rfl)
  · exact mayWarn_intoEntry (mem_of_packageNamed? hn) hw

theorem mayWarn_pathFor {o? : Option (Package × Nat)} {target : String} {s : Specifier}
    {path? : Option Path} {mapped : Trace} (h : r.pathFor .on o? target s = .ok (path?, mapped))
    (hw : w ∈ mapped.warnings) : r.MayWarn w := by
  cases s with
  | relative =>
    cases h
    cases hw
  | aliased p rest =>
    cases h
    cases hw
  | ownName p rest =>
    cases h
    cases hw
  | module => exact mayWarn_intoModule h hw

theorem mayWarn_resolveTraced {target : String} {origin : Path} {relative : Bool} {res : Resolution}
    (h : r.resolveTraced target origin relative = .ok res) :
    ∀ w ∈ res.trace.warnings, r.MayWarn w := by
  intro w hw
  obtain ⟨real, opened, path?, mapped, last, ho, hp, ht, -⟩ := trace_resolveTraced h
  rw [ht] at hw
  simp only [Trace.warnings_append, warnings_originStep, kindStep, Trace.warnings_step,
    List.append_nil, List.mem_append] at hw
  obtain hw | hw := hw
  · exact mayWarn_realOrigin ho hw
  · exact mayWarn_pathFor hp hw

end Resolver
end Monorepo
