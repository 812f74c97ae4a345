import HevTaskSystem.Aide.Aide

/-! The life of an aide in one process.

The references that are outstanding are counted by the aide. An aide with references is the
global one or an orphan, so that one fork turns every aide that is still used into an
orphan; the calls of the child that reach an inherited aide therefore find an orphan.
-/

set_option autoImplicit false

namespace HevTaskSystem

open Foundation

def AidePhase.live : AidePhase → Bool
  | .drainWrite | .drainRead | .delSetup => true
  | _ => false

def AideCall.ends (a : Addr) (c : AideCall) : Bool := c.aide = a ∧ c.phase.ending

namespace AideProcess

structure Sound (s : AideProcess) (a : Addr) : Prop where
  counted : ∀ x, s.aides a = some x → x.refCount = s.outstanding a ∧ s.created a = true
  absent : s.aides a = none → s.outstanding a = 0
  current : s.aide = a → ∃ x, s.aides a = some x ∧ x.orphan = false ∧ x.refCount ≠ 0
  referred : ∀ x, s.aides a = some x → x.refCount ≠ 0 → s.aide = a ∨ x.orphan = true
  orphans : ∀ x, s.aides a = some x → s.inherited a = true → x.refCount ≠ 0 → x.orphan = true
  destroys : s.created a = true → s.destroys a = if s.outstanding a = 0 then 1 else 0

structure Core (s : AideProcess) : Prop where
  null : s.aides 0 = none ∧ s.outstanding 0 = 0 ∧ s.created 0 = false
  sound : ∀ a, a ≠ 0 → s.Sound a

/-- The calls of the threads: no more hold an aide than there are references to it, and one at
most destroys it. -/
structure Calls (s : AideProcess) : Prop where
  held : ∀ a, s.calls.countP (AideCall.holds a) ≤ s.outstanding a
  single : ∀ a, s.calls.countP (AideCall.ends a) ≤ 1
  ending : ∀ c ∈ s.calls, c.phase.ending = true →
    ∃ x, s.aides c.aide = some x ∧ x.refCount = 0 ∧ (s.inherited c.aide = true → x.orphan = true)
  live : ∀ c ∈ s.calls, c.phase.live = true → s.inherited c.aide = false

structure Inv (s : AideProcess) : Prop where
  core : s.Core
  calls : s.Calls
  touched : ∀ t ∈ s.touched, t.inherited = false
  unused : s.once = false → ∀ a, s.aides a = none

/-- The states differ in one aide, and its records, only. -/
structure Elsewhere (a : Addr) (s next : AideProcess) : Prop where
  aides : ∀ b, b ≠ a → next.aides b = s.aides b
  outstanding : ∀ b, b ≠ a → next.outstanding b = s.outstanding b
  created : ∀ b, b ≠ a → next.created b = s.created b
  destroys : ∀ b, b ≠ a → next.destroys b = s.destroys b
  inherited : ∀ b, b ≠ a → next.inherited b = s.inherited b
  aide : ∀ b, b ≠ a → b ≠ 0 → (next.aide = b ↔ s.aide = b)

variable {s next : AideProcess} {a : Addr} {c : AideCall} {x : Aide}

theorem Core.change (core : s.Core) (nonnull : a ≠ 0) (elsewhere : Elsewhere a s next) (here : next.Sound a) :
    next.Core := by
  refine ⟨?_, fun b nonnull' => ?_⟩
  · rw [elsewhere.aides 0 nonnull.symm, elsewhere.outstanding 0 nonnull.symm, elsewhere.created 0 nonnull.symm]
    exact core.null
  · by_cases same : b = a
    · exact same ▸ here
    · obtain ⟨counted, absent, current, referred, orphans, destroys⟩ := core.sound b nonnull'
      have aide := elsewhere.aide b same nonnull'
      constructor <;> simp only [elsewhere.aides b same, elsewhere.outstanding b same, elsewhere.created b same,
        elsewhere.destroys b same, elsewhere.inherited b same, aide] <;> assumption

theorem Core.nonnull (core : s.Core) (there : s.aides a = some x) : a ≠ 0 :=
  fun null => nomatch (null ▸ core.null.1).symm.trans there

theorem Core.got (core : s.Core) (there : s.aides a = some x) (own : x.orphan = false) (positive : x.refCount ≠ 0)
    (elsewhere : Elsewhere a s next) (aides : next.aides a = some { x with refCount := x.refCount + 1 })
    (outstanding : next.outstanding a = s.outstanding a + 1) (created : next.created a = s.created a)
    (destroys : next.destroys a = s.destroys a) (inherited : next.inherited a = s.inherited a)
    (aide : next.aide = s.aide) : next.Core := by
  have nonnull := core.nonnull there
  obtain ⟨counted, -, current, referred, orphans, before⟩ := core.sound a nonnull
  obtain ⟨count, made⟩ := counted x there
  refine core.change nonnull elsewhere ⟨?_, ?_, ?_, ?_, ?_, ?_⟩
  · rw [aides, outstanding, created]
    rintro _ ⟨⟩
    exact ⟨congrArg (· + 1) count, made⟩
  · simp [aides]
  · exact fun _ => ⟨_, aides, own, Nat.succ_ne_zero _⟩
  · rw [aides, aide]
    rintro _ ⟨⟩ -
    exact referred x there positive
  · rw [aides, inherited]
    rintro _ ⟨⟩ from' -
    exact orphans x there from' positive
  · rw [created, destroys, outstanding, before made, if_neg (count ▸ positive), if_neg (Nat.succ_ne_zero _)]
    exact fun _ => rfl

theorem Core.fresh (core : s.Core) (nonnull : a ≠ 0) (elsewhere : Elsewhere a s next)
    (aides : next.aides a = some ⟨false, 1⟩) (outstanding : next.outstanding a = 1) (created : next.created a = true)
    (destroys : next.destroys a = 0) (inherited : next.inherited a = false) (aide : next.aide = a) : next.Core := by
  refine core.change nonnull elsewhere ⟨?_, ?_, ?_, ?_, ?_, ?_⟩
  · rw [aides, outstanding, created]
    rintro _ ⟨⟩
    exact ⟨rfl, rfl⟩
  · simp [aides]
  · exact fun _ => ⟨_, aides, rfl, by decide⟩
  · exact fun _ _ _ => .inl aide
  · simp [inherited]
  · simp [destroys, outstanding]

theorem Core.puts (core : s.Core) (there : s.aides a = some x) (positive : x.refCount ≠ 0)
    (elsewhere : Elsewhere a s next) (aides : next.aides a = some { x with refCount := x.refCount - 1 })
    (outstanding : next.outstanding a = s.outstanding a - 1) (created : next.created a = s.created a)
    (destroys : next.destroys a = if x.refCount - 1 = 0 then s.destroys a + 1 else s.destroys a)
    (inherited : next.inherited a = s.inherited a)
    (aide : next.aide = if x.refCount - 1 = 0 ∧ s.aide = a then 0 else s.aide) : next.Core := by
  have nonnull := core.nonnull there
  obtain ⟨counted, -, current, referred, orphans, before⟩ := core.sound a nonnull
  obtain ⟨count, made⟩ := counted x there
  have undestroyed : s.destroys a = 0 := by rw [before made, if_neg (count ▸ positive)]
  refine core.change nonnull elsewhere ⟨?_, ?_, ?_, ?_, ?_, ?_⟩
  · rw [aides, outstanding, created]
    rintro _ ⟨⟩
    exact ⟨congrArg (· - 1) count, made⟩
  · simp [aides]
  · intro here
    have left : x.refCount - 1 ≠ 0 := by
      intro last
      rw [aide, last] at here
      by_cases same : s.aide = a
      · exact nonnull (by simpa [same] using here.symm)
      · simp [same] at here
    rw [aide, if_neg fun both => left both.1] at here
    obtain ⟨y, again, own, -⟩ := current here
    cases there.symm.trans again
    exact ⟨_, aides, own, left⟩
  · rw [aides, aide]
    rintro _ ⟨⟩ left
    rw [if_neg fun both => left both.1]
    exact referred x there positive
  · rw [aides, inherited]
    rintro _ ⟨⟩ from' -
    exact orphans x there from' positive
  · intro _
    rw [destroys, outstanding, ← count, undestroyed]

theorem Core.released (core : s.Core) (there : s.aides a = some x) (zero : x.refCount = 0)
    (elsewhere : Elsewhere a s next) (aides : next.aides a = none)
    (outstanding : next.outstanding a = s.outstanding a) (created : next.created a = s.created a)
    (destroys : next.destroys a = s.destroys a) (aide : next.aide = s.aide) : next.Core := by
  have nonnull := core.nonnull there
  obtain ⟨counted, -, current, -, -, before⟩ := core.sound a nonnull
  refine core.change nonnull elsewhere ⟨by simp [aides], ?_, ?_, by simp [aides], by simp [aides], ?_⟩
  · rw [outstanding, ← (counted x there).1]
    exact fun _ => zero
  · rw [aide]
    intro here
    obtain ⟨y, again, -, positive⟩ := current here
    cases there.symm.trans again
    exact absurd zero positive
  · rw [created, destroys, outstanding]
    exact before

/-! ## The calls -/

structure Frame (s next : AideProcess) : Prop where
  calls : next.calls = s.calls
  outstanding : ∀ a, s.outstanding a ≤ next.outstanding a
  aides : ∀ a x, s.aides a = some x → x.refCount = 0 → next.aides a = some x
  inherited : ∀ a x, s.aides a = some x → next.inherited a = s.inherited a

theorem Calls.exists_aide (calls : s.Calls) (core : s.Core) (member : c ∈ s.calls) :
    ∃ x, s.aides c.aide = some x ∧ (c.phase.ending = false → x.refCount ≠ 0) := by
  cases ending : c.phase.ending with
  | true =>
    obtain ⟨x, there, -⟩ := calls.ending c member ending
    exact ⟨x, there, fun other => (nomatch other)⟩
  | false =>
    have some : s.outstanding c.aide ≠ 0 := by
      have positive : 0 < s.calls.countP (AideCall.holds c.aide) :=
        List.countP_pos_iff.mpr ⟨c, member, by simp [AideCall.holds, ending]⟩
      have := calls.held c.aide
      omega
    have nonnull : c.aide ≠ 0 := fun null => some (null ▸ core.null.2.1)
    have sound := core.sound c.aide nonnull
    rcases Option.eq_none_or_eq_some (s.aides c.aide) with absent | ⟨x, there⟩
    · exact absurd (sound.absent absent) some
    · exact ⟨x, there, fun _ => (sound.counted x there).1 ▸ some⟩

theorem Calls.frame (calls : s.Calls) (core : s.Core) (frame : Frame s next) : next.Calls := by
  refine ⟨fun a => ?_, fun a => ?_, ?_, ?_⟩
  · rw [frame.calls]
    exact Nat.le_trans (calls.held a) (frame.outstanding a)
  · rw [frame.calls]
    exact calls.single a
  · rw [frame.calls]
    intro c member ending
    obtain ⟨x, there, zero, inherited⟩ := calls.ending c member ending
    exact ⟨x, frame.aides c.aide x there zero, zero, by rwa [frame.inherited c.aide x there]⟩
  · rw [frame.calls]
    intro c member live
    obtain ⟨x, there, -⟩ := calls.exists_aide core member
    rw [frame.inherited c.aide x there]
    exact calls.live c member live

/-! ## The steps -/

/-- The section of `hev_task_aide_get` returns NULL, or an aide that is no orphan and has had
references since it was created. -/
theorem Inv.get_spec (inv : s.Inv) (once : s.once = true) {calloc : Addr} (free : calloc ≠ 0 → s.aides calloc = none) :
    ∃ next r, s.get calloc = some (next, r) ∧ next.Inv ∧
      (r ≠ 0 → ∃ x, next.aides r = some x ∧ x.orphan = false ∧ x.refCount ≠ 0 ∧ next.destroys r = 0) := by
  by_cases none : s.aide = 0
  · by_cases failed : calloc = 0
    · have result : s.get calloc = some (s, 0) := by simp [get, none, aideNew, failed]
      exact ⟨s, 0, result, inv, fun some => absurd rfl some⟩
    · have result : s.get calloc = some ({ s with
          aides := Function.update s.aides calloc (some ⟨false, 1⟩)
          aide := calloc
          outstanding := Function.update s.outstanding calloc 1
          created := Function.update s.created calloc true
          destroys := Function.update s.destroys calloc 0
          inherited := Function.update s.inherited calloc false }, calloc) := by
        simp [get, none, aideNew, failed, setAide]
      refine ⟨_, _, result, ⟨?_, ?_, inv.touched, fun new => nomatch once.symm.trans new⟩, fun _ => ?_⟩
      · refine inv.core.fresh failed ⟨?_, ?_, ?_, ?_, ?_, ?_⟩ ?_ ?_ ?_ ?_ ?_ rfl
        all_goals simp +contextual [none]
        exact fun b apart nonnull => ⟨fun same => absurd same.symm apart, fun null => absurd null.symm nonnull⟩
      · have apart {a : Addr} {x : Aide} (there : s.aides a = some x) : a ≠ calloc := by
          rintro rfl
          exact nomatch (free failed).symm.trans there
        refine inv.calls.frame inv.core ⟨rfl, fun a => ?_, fun a x there zero => ?_, fun a x there => ?_⟩
        · by_cases same : a = calloc
          · simp [same, (inv.core.sound calloc failed).absent (free failed)]
          · simp [same]
        · exact (Function.update_of_ne (apart there) _ _).trans there
        · exact Function.update_of_ne (apart there) _ _
      · exact ⟨_, Function.update_self _ _ _, rfl, by decide, Function.update_self _ _ _⟩
  · obtain ⟨x, there, own, positive⟩ := (inv.core.sound s.aide none).current rfl
    have result : s.get calloc = some ({ s with
        aides := Function.update s.aides s.aide (some { x with refCount := x.refCount + 1 })
        outstanding := Function.update s.outstanding s.aide (s.outstanding s.aide + 1) }, s.aide) := by
      simp [get, none, there, setAide]
    have sound := inv.core.sound s.aide none
    refine ⟨_, _, result, ⟨?_, ?_, inv.touched, fun new => nomatch once.symm.trans new⟩, fun _ => ?_⟩
    · refine inv.core.got there own positive ⟨?_, ?_, ?_, ?_, ?_, ?_⟩ ?_ ?_ rfl rfl rfl rfl
      all_goals simp +contextual
    · refine inv.calls.frame inv.core ⟨rfl, fun a => ?_, fun a y here zero => ?_, fun _ _ _ => rfl⟩
      · by_cases same : a = s.aide
        · simp [same]
        · simp [same]
      · have apart : a ≠ s.aide := by
          rintro rfl
          cases there.symm.trans here
          exact positive zero
        exact (Function.update_of_ne apart _ _).trans here
    · refine ⟨_, Function.update_self _ _ _, own, Nat.succ_ne_zero _, ?_⟩
      change s.destroys s.aide = 0
      obtain ⟨count, made⟩ := sound.counted x there
      rw [sound.destroys made, if_neg (count ▸ positive)]

structure Replaces (c : AideCall) (o : Option AideCall) (s next : AideProcess) : Prop where
  member : c ∈ s.calls
  count : ∀ p : AideCall → Bool, next.calls.countP p + [c].countP p = s.calls.countP p + o.toList.countP p
  mem : ∀ other ∈ next.calls, other ∈ s.calls ∨ o = some other

theorem replaces {i : Nat} {o : Option AideCall} (there : s.calls[i]? = some c)
    (calls : next.calls = s.calls.take i ++ o.toList ++ s.calls.drop (i + 1)) : Replaces c o s next := by
  obtain ⟨bound, here⟩ := List.getElem?_eq_some_iff.mp there
  have split : s.calls.take i ++ [c] ++ s.calls.drop (i + 1) = s.calls := by
    rw [List.append_assoc, List.singleton_append, ← here, ← List.drop_eq_getElem_cons bound, List.take_append_drop]
  refine ⟨List.mem_of_getElem? there, fun p => ?_, fun other member => ?_⟩
  · have whole := congrArg (List.countP p) split
    simp only [List.countP_append] at whole
    simp only [calls, List.countP_append]
    omega
  · rw [calls, List.mem_append, List.mem_append, Option.mem_toList] at member
    rcases member with (first | new) | last
    · exact .inl (List.mem_of_mem_take first)
    · exact .inr new
    · exact .inl (List.mem_of_mem_drop last)

theorem Calls.move (calls : s.Calls) {phase : AidePhase} (step : Replaces c (some { c with phase := phase }) s next)
    (same : phase.ending = c.phase.ending) (live : phase.live = true → s.inherited c.aide = false)
    (aides : next.aides = s.aides) (outstanding : next.outstanding = s.outstanding)
    (inherited : next.inherited = s.inherited) : next.Calls := by
  have member := step.member
  refine ⟨fun a => ?_, fun a => ?_, fun other member' ending => ?_, fun other member' live' => ?_⟩
  · have count := step.count (AideCall.holds a)
    have alike : AideCall.holds a { c with phase := phase } = AideCall.holds a c := by simp [AideCall.holds, same]
    simp only [Option.toList_some, List.countP_singleton, alike] at count
    have := calls.held a
    rw [outstanding]
    omega
  · have count := step.count (AideCall.ends a)
    have alike : AideCall.ends a { c with phase := phase } = AideCall.ends a c := by simp [AideCall.ends, same]
    simp only [Option.toList_some, List.countP_singleton, alike] at count
    have := calls.single a
    omega
  · rw [aides, inherited]
    rcases step.mem other member' with old | new
    · exact calls.ending other old ending
    · cases new
      exact calls.ending c member (same ▸ ending)
  · rw [inherited]
    rcases step.mem other member' with old | new
    · exact calls.live other old live'
    · cases new
      exact live live'

theorem Calls.unended (calls : s.Calls) (there : s.aides a = some x) (positive : x.refCount ≠ 0) :
    s.calls.countP (AideCall.ends a) = 0 := by
  refine List.countP_eq_zero.mpr fun other member ends => ?_
  simp only [AideCall.ends, decide_eq_true_eq] at ends
  obtain ⟨rfl, ending⟩ := ends
  obtain ⟨y, here, zero, -⟩ := calls.ending other member ending
  cases there.symm.trans here
  exact positive zero

theorem Calls.puts (calls : s.Calls) (last : Bool)
    (step : Replaces c (if last then some { c with phase := .quit } else none) s next) (put : c.phase = .put)
    (there : s.aides c.aide = some x) (positive : x.refCount ≠ 0)
    (aides : next.aides = Function.update s.aides c.aide (some { x with refCount := x.refCount - 1 }))
    (zero : last = true → x.refCount - 1 = 0) (outstanding : next.outstanding =
      Function.update s.outstanding c.aide (s.outstanding c.aide - 1)) (inherited : next.inherited = s.inherited)
    (orphan : s.inherited c.aide = true → x.orphan = true) : next.Calls := by
  have unended := calls.unended there positive
  refine ⟨fun a => ?_, fun a => ?_, fun other member ending => ?_, fun other member live => ?_⟩
  · have count := step.count (AideCall.holds a)
    have before := calls.held a
    rw [outstanding, Function.update_apply]
    by_cases same : a = c.aide
    · subst same
      have holds : AideCall.holds c.aide c = true := by simp [AideCall.holds, put, AidePhase.ending]
      have none : (if last then some { c with phase := .quit } else none).toList.countP (AideCall.holds c.aide) = 0 := by
        cases last <;> simp [AideCall.holds, AidePhase.ending]
      simp only [none, List.countP_singleton, holds, if_true] at count ⊢
      omega
    · have none : (if last then some { c with phase := .quit } else none).toList.countP (AideCall.holds a) = 0 := by
        cases last <;> simp [AideCall.holds, AidePhase.ending]
      rw [if_neg same]
      omega
  · have count := step.count (AideCall.ends a)
    have before := calls.single a
    by_cases same : a = c.aide
    · subst same
      have one : (if last then some { c with phase := .quit } else none).toList.countP (AideCall.ends c.aide) ≤ 1 := by
        cases last <;> simp [AideCall.ends, AidePhase.ending]
      omega
    · have none : (if last then some { c with phase := .quit } else none).toList.countP (AideCall.ends a) = 0 := by
        cases last <;> simp [AideCall.ends, Ne.symm same]
      omega
  · rw [aides, inherited]
    rcases step.mem other member with old | new
    · obtain ⟨y, here, none, from'⟩ := calls.ending other old ending
      refine ⟨y, ?_, none, from'⟩
      rw [Function.update_of_ne, here]
      intro same
      rw [same, there] at here
      cases here
      exact positive none
    · cases last with
      | false => exact nomatch new
      | true =>
        cases new
        exact ⟨_, Function.update_self _ _ _, zero rfl, orphan⟩
  · rw [inherited]
    rcases step.mem other member with old | new
    · exact calls.live other old live
    · cases last with
      | false => exact nomatch new
      | true =>
        cases new
        exact nomatch live

theorem Calls.release (calls : s.Calls) (step : Replaces c none s next) (release : c.phase = .release)
    (aides : next.aides = Function.update s.aides c.aide none) (outstanding : next.outstanding = s.outstanding)
    (inherited : next.inherited = s.inherited) : next.Calls := by
  have holds (a : Addr) : next.calls.countP (AideCall.holds a) ≤ s.calls.countP (AideCall.holds a) := by
    have := step.count (AideCall.holds a)
    simp only [Option.toList_none, List.countP_nil] at this
    omega
  have ends (a : Addr) := step.count (AideCall.ends a)
  have ended : next.calls.countP (AideCall.ends c.aide) = 0 := by
    have before := calls.single c.aide
    have count := ends c.aide
    have own : AideCall.ends c.aide c = true := by simp [AideCall.ends, release, AidePhase.ending]
    simp only [Option.toList_none, List.countP_nil, List.countP_singleton, own, if_true] at count
    omega
  refine ⟨fun a => ?_, fun a => ?_, fun other member ending => ?_, fun other member live => ?_⟩
  · rw [outstanding]
    exact Nat.le_trans (holds a) (calls.held a)
  · have before := calls.single a
    have count := ends a
    simp only [Option.toList_none, List.countP_nil] at count
    omega
  · have apart : other.aide ≠ c.aide := by
      intro same
      refine List.countP_eq_zero.mp ended other member ?_
      simp [AideCall.ends, same, ending]
    obtain old | new := step.mem other member
    · rw [aides, inherited, Function.update_of_ne apart]
      exact calls.ending other old ending
    · exact nomatch new
  · rw [inherited]
    obtain old | new := step.mem other member
    · exact calls.live other old live
    · exact nomatch new

structure Alike (s next : AideProcess) : Prop where
  aides : next.aides = s.aides
  aide : next.aide = s.aide
  outstanding : next.outstanding = s.outstanding
  created : next.created = s.created
  destroys : next.destroys = s.destroys
  inherited : next.inherited = s.inherited

theorem Core.alike (core : s.Core) (alike : Alike s next) : next.Core := by
  obtain ⟨aides, aide, outstanding, created, destroys, inherited⟩ := alike
  refine ⟨by rw [aides, outstanding, created]; exact core.null, fun a nonnull => ?_⟩
  obtain ⟨counted, absent, current, referred, orphans, before⟩ := core.sound a nonnull
  constructor <;> simp only [aides, aide, outstanding, created, destroys, inherited] <;> assumption

theorem Inv.alike (inv : s.Inv) (alike : Alike s next) (calls : next.Calls)
    (touched : ∀ t ∈ next.touched, t.inherited = false) (once : s.once = true → next.once = true) : next.Inv := by
  refine ⟨inv.core.alike alike, calls, touched, fun new a => ?_⟩
  rw [alike.aides]
  refine inv.unused ?_ a
  cases before : s.once with
  | false => rfl
  | true => exact nomatch (once before).symm.trans new

theorem Inv.locks (inv : s.Inv) (once mutex : Bool) (later : s.once = true → once = true) :
    Inv { s with once := once, mutex := mutex } := by
  refine inv.alike ⟨rfl, rfl, rfl, rfl, rfl, rfl⟩ (inv.calls.frame inv.core ?_) inv.touched later
  exact ⟨rfl, fun _ => Nat.le_refl _, fun _ _ there _ => there, fun _ _ _ => rfl⟩

theorem Inv.move (inv : s.Inv) {i : Nat} {phase : AidePhase} (there : s.calls[i]? = some c)
    (same : phase.ending = c.phase.ending) (live : phase.live = true → s.inherited c.aide = false) :
    Inv { s with
      calls := s.calls.take i ++ (some { c with phase := phase }).toList ++ s.calls.drop (i + 1) } := by
  refine inv.alike ⟨rfl, rfl, rfl, rfl, rfl, rfl⟩ ?_ inv.touched id
  exact inv.calls.move (replaces there rfl) same live rfl rfl rfl

theorem Inv.moveTouch (inv : s.Inv) {i : Nat} {phase : AidePhase} (there : s.calls[i]? = some c)
    (same : phase.ending = c.phase.ending) (own : s.inherited c.aide = false) (effect : AideEffect) :
    Inv { s.touch effect c.aide with
      calls := s.calls.take i ++ (some { c with phase := phase }).toList ++ s.calls.drop (i + 1) } := by
  refine inv.alike ⟨rfl, rfl, rfl, rfl, rfl, rfl⟩ ?_ ?_ id
  · exact inv.calls.move (replaces there rfl) same (fun _ => own) rfl rfl rfl
  · intro t member
    rcases List.mem_append.mp member with old | new
    · exact inv.touched t old
    · rw [List.mem_singleton.mp new]
      exact own

theorem Inv.orphan_eq (inv : s.Inv) (member : c ∈ s.calls) :
    ∃ x, s.orphan c.aide = some x.orphan ∧ s.aides c.aide = some x ∧ (x.orphan = false → s.inherited c.aide = false) := by
  obtain ⟨x, there, positive⟩ := inv.calls.exists_aide inv.core member
  refine ⟨x, by simp [orphan, there], there, fun own => ?_⟩
  by_contra inherited
  rw [Bool.not_eq_false] at inherited
  cases ending : c.phase.ending with
  | true =>
    obtain ⟨y, here, -, from'⟩ := inv.calls.ending c member ending
    cases there.symm.trans here
    exact nomatch own.symm.trans (from' inherited)
  | false =>
    have sound := inv.core.sound c.aide (inv.core.nonnull there)
    exact nomatch own.symm.trans (sound.orphans x there inherited (positive ending))

theorem Inv.put_spec (inv : s.Inv) {i : Nat} (there : s.calls[i]? = some c) (put : c.phase = .put) (again : Bool) :
    ∃ next phase, s.advance c again = some (next, phase) ∧ Inv { next with
      calls := s.calls.take i ++ (phase.map fun phase => { c with phase := phase }).toList ++ s.calls.drop (i + 1) } := by
  have member := List.mem_of_getElem? there
  obtain ⟨x, here, references⟩ := inv.calls.exists_aide inv.core member
  have positive : x.refCount ≠ 0 := references (by rw [put]; rfl)
  have nonnull := inv.core.nonnull here
  have sound := inv.core.sound c.aide nonnull
  have orphan : s.inherited c.aide = true → x.orphan = true := fun from' => sound.orphans x here from' positive
  -- one state covers both results: the count of destroys changes with the last reference only
  have result : s.advance c again = some ({ s with
      aides := Function.update s.aides c.aide (some { x with refCount := x.refCount - 1 })
      aide := if x.refCount - 1 = 0 ∧ s.aide = c.aide then 0 else s.aide
      outstanding := Function.update s.outstanding c.aide (s.outstanding c.aide - 1)
      destroys := Function.update s.destroys c.aide
        (if x.refCount - 1 = 0 then s.destroys c.aide + 1 else s.destroys c.aide) },
      if x.refCount - 1 = 0 then some .quit else none) := by
    by_cases last : x.refCount - 1 = 0 <;> simp [advance, put, putSection, setAide, here, last]
  refine ⟨_, _, result, ⟨?_, ?_, inv.touched, fun new => ?_⟩⟩
  · refine inv.core.puts here positive ⟨fun b apart => Function.update_of_ne apart _ _,
      fun b apart => Function.update_of_ne apart _ _, fun _ _ => rfl, fun b apart => Function.update_of_ne apart _ _,
      fun _ _ => rfl, fun b apart nonnull' => ?_⟩ (Function.update_self _ _ _) (Function.update_self _ _ _) rfl
      (Function.update_self _ _ _) rfl rfl
    change (if x.refCount - 1 = 0 ∧ s.aide = c.aide then 0 else s.aide) = b ↔ s.aide = b
    by_cases last : x.refCount - 1 = 0 ∧ s.aide = c.aide
    · rw [if_pos last, last.2]
      exact ⟨fun null => absurd null.symm nonnull', fun same => absurd same.symm apart⟩
    · rw [if_neg last]
  · refine inv.calls.puts (decide (x.refCount - 1 = 0)) (replaces there ?_) put here positive rfl
      of_decide_eq_true rfl rfl orphan
    by_cases last : x.refCount - 1 = 0 <;> simp [last]
  · exact nomatch (inv.unused new c.aide).symm.trans here

theorem Inv.release_spec (inv : s.Inv) {i : Nat} (there : s.calls[i]? = some c) (release : c.phase = .release)
    (again : Bool) : ∃ next phase, s.advance c again = some (next, phase) ∧ Inv { next with
      calls := s.calls.take i ++ (phase.map fun phase => { c with phase := phase }).toList ++ s.calls.drop (i + 1) } := by
  obtain ⟨x, here, zero, -⟩ := inv.calls.ending c (List.mem_of_getElem? there) (by rw [release]; rfl)
  have result : s.advance c again = some ({ s with aides := Function.update s.aides c.aide none }, none) := by
    simp [advance, release, here]
  refine ⟨_, _, result, ⟨?_, ?_, inv.touched, fun new => ?_⟩⟩
  · exact inv.core.released here zero ⟨fun b apart => Function.update_of_ne apart _ _, fun _ _ => rfl, fun _ _ => rfl,
      fun _ _ => rfl, fun _ _ => rfl, fun _ _ _ => Iff.rfl⟩ (Function.update_self _ _ _) rfl rfl rfl rfl
  · exact inv.calls.release (replaces there rfl) release rfl rfl rfl
  · exact nomatch (inv.unused new c.aide).symm.trans here

theorem Inv.advance_spec (inv : s.Inv) {i : Nat} (there : s.calls[i]? = some c) (again : Bool) :
    ∃ next phase, s.advance c again = some (next, phase) ∧ Inv { next with
      calls := s.calls.take i ++ (phase.map fun phase => { c with phase := phase }).toList ++ s.calls.drop (i + 1) } := by
  have member := List.mem_of_getElem? there
  obtain ⟨x, orphan, here, own⟩ := inv.orphan_eq member
  have live := inv.calls.live c member
  cases at' : c.phase with
  | put => exact inv.put_spec there at' again
  | release => exact inv.release_spec there at' again
  | quit =>
    cases state : x.orphan with
    | true => exact ⟨s, some .join, by simp [advance, at', orphan, state], inv.move there (by rw [at']; rfl) nofun⟩
    | false =>
      refine ⟨s.touch .quit c.aide, some (if again then .quit else .join), by simp [advance, at', orphan, state], ?_⟩
      exact inv.moveTouch there (by cases again <;> rw [at'] <;> rfl) (own state) .quit
  | join =>
    cases state : x.orphan with
    | true => exact ⟨s, some .release, by simp [advance, at', orphan, state], inv.move there (by rw [at']; rfl) nofun⟩
    | false =>
      refine ⟨s.touch .join c.aide, some .release, by simp [advance, at', orphan, state], ?_⟩
      exact inv.moveTouch there (by rw [at']; rfl) (own state) .join
  | proxyDestroy =>
    cases state : x.orphan with
    | true => exact ⟨s, some .del, by simp [advance, at', orphan, state], inv.move there (by rw [at']; rfl) nofun⟩
    | false =>
      refine ⟨s, some .drainWrite, by simp [advance, at', orphan, state], ?_⟩
      exact inv.move there (by rw [at']; rfl) fun _ => own state
  | drainWrite =>
    refine ⟨s.touch .drainWrite c.aide, some (if again then .drainWrite else .drainRead), by simp [advance, at'], ?_⟩
    exact inv.moveTouch there (by cases again <;> rw [at'] <;> rfl) (live (by rw [at']; rfl)) .drainWrite
  | drainRead =>
    refine ⟨s.touch .drainRead c.aide, some (if again then .drainRead else .del), by simp [advance, at'], ?_⟩
    exact inv.moveTouch there (by cases again <;> rw [at'] <;> rfl) (live (by rw [at']; rfl)) .drainRead
  | del =>
    cases state : x.orphan with
    | true => exact ⟨s, some .put, by simp [advance, at', orphan, state], inv.move there (by rw [at']; rfl) nofun⟩
    | false =>
      refine ⟨s, some .delSetup, by simp [advance, at', orphan, state], ?_⟩
      exact inv.move there (by rw [at']; rfl) fun _ => own state
  | delSetup =>
    refine ⟨s.touch .reactorDel c.aide, some .put, by simp [advance, at', here], ?_⟩
    exact inv.moveTouch there (by rw [at']; rfl) (live (by rw [at']; rfl)) .reactorDel

theorem Calls.start (calls : s.Calls) {phase : AidePhase} (before : phase.ending = false) (new : phase.live = false)
    (free : s.calls.countP (AideCall.holds a) < s.outstanding a) :
    Calls { s with calls := s.calls ++ [⟨phase, a⟩] } := by
  refine ⟨fun b => ?_, fun b => ?_, fun c member ending => ?_, fun c member live => ?_⟩
  · change (s.calls ++ [AideCall.mk phase a]).countP (AideCall.holds b) ≤ s.outstanding b
    rw [List.countP_append, List.countP_singleton]
    by_cases same : b = a
    · subst same
      split <;> omega
    · have other : AideCall.holds b ⟨phase, a⟩ = false := by simp [AideCall.holds, Ne.symm same]
      have := calls.held b
      simpa [other]
  · change (s.calls ++ [AideCall.mk phase a]).countP (AideCall.ends b) ≤ 1
    have other : AideCall.ends b ⟨phase, a⟩ = false := by simp [AideCall.ends, before]
    rw [List.countP_append, List.countP_singleton, other]
    exact calls.single b
  · rcases List.mem_append.mp member with old | last
    · exact calls.ending c old ending
    · rw [List.mem_singleton.mp last] at ending
      exact nomatch before.symm.trans ending
  · rcases List.mem_append.mp member with old | last
    · exact calls.live c old live
    · rw [List.mem_singleton.mp last] at live
      exact nomatch new.symm.trans live

theorem Calls.of_nil (none : s.calls = []) : s.Calls := by
  constructor <;> simp [none]

/-- The global aide, if any, becomes an orphan. By `Sound.referred` this makes orphans of all
aides that have references, so that any aide may count as inherited. -/
theorem Core.orphaned (core : s.Core)
    (aides : ∀ a, next.aides a = (s.aides a).map fun x => { x with orphan := x.orphan || decide (s.aide = a) })
    (aide : next.aide = 0) (outstanding : next.outstanding = s.outstanding) (created : next.created = s.created)
    (destroys : next.destroys = s.destroys) : next.Core := by
  refine ⟨by rw [aides, outstanding, created, core.null.1]; exact ⟨rfl, core.null.2⟩, fun a nonnull => ?_⟩
  have sound := core.sound a nonnull
  have orphan (y : Aide) (there : next.aides a = some y) (positive : y.refCount ≠ 0) : y.orphan = true := by
    rw [aides, Option.map_eq_some_iff] at there
    obtain ⟨x, here, rfl⟩ := there
    rcases sound.referred x here positive with current | orphan
    · simp [current]
    · simp [orphan]
  refine ⟨fun y there => ?_, fun absent => ?_, fun current => ?_, fun y there positive => ?_,
    fun y there _ positive => orphan y there positive, ?_⟩
  · rw [aides, Option.map_eq_some_iff] at there
    obtain ⟨x, here, rfl⟩ := there
    rw [outstanding, created]
    exact sound.counted x here
  · rw [aides, Option.map_eq_none_iff] at absent
    rw [outstanding]
    exact sound.absent absent
  · exact absurd (current.symm.trans aide) nonnull
  · exact .inr (orphan y there positive)
  · rw [created, destroys, outstanding]
    exact sound.destroys

theorem Inv.forkChild_spec (inv : s.Inv) : ∃ next, s.inherit.forkChild = some next ∧ next.Inv := by
  by_cases none : s.aide = 0
  · refine ⟨{ s.inherit with mutex := false }, by simp [forkChild, inherit, none], ⟨?_, ?_, inv.touched, inv.unused⟩⟩
    · refine inv.core.orphaned (fun a => ?_) none rfl rfl rfl
      change s.aides a = _
      by_cases null : a = 0
      · rw [null, inv.core.null.1, Option.map_none]
      · simp [none, Ne.symm null]
    · exact Calls.of_nil rfl
  · obtain ⟨x, there, -, -⟩ := (inv.core.sound s.aide none).current rfl
    refine ⟨{ (s.inherit.setAide s.aide { x with orphan := true }) with aide := 0, mutex := false },
      by simp [forkChild, inherit, none, there], ⟨?_, ?_, inv.touched, fun new => ?_⟩⟩
    · refine inv.core.orphaned (fun a => ?_) rfl rfl rfl rfl
      change Function.update s.aides s.aide _ a = _
      by_cases same : a = s.aide
      · simp [same, there]
      · simp [Function.update_of_ne same, Ne.symm same]
    · exact Calls.of_nil rfl
    · exact nomatch (inv.unused new s.aide).symm.trans there

theorem Inv.fork_spec (inv : s.Inv) (new : s.once = false) : s.inherit.Inv := by
  have none : s.aide = 0 := by
    by_contra some
    obtain ⟨x, there, -⟩ := (inv.core.sound s.aide some).current rfl
    exact nomatch (inv.unused new s.aide).symm.trans there
  refine ⟨?_, Calls.of_nil rfl, inv.touched, inv.unused⟩
  refine inv.core.orphaned (fun a => ?_) none rfl rfl rfl
  change s.aides a = _
  rw [inv.unused new a, Option.map_none]

theorem Inv.step (inv : s.Inv) {op : AideOp} (ready : op.Ready s) : ∃ next, op.apply s = some next ∧ next.Inv := by
  cases op with
  | once => exact ⟨_, rfl, inv.locks true s.mutex fun _ => rfl⟩
  | get calloc =>
    obtain ⟨once, -, free⟩ := ready
    obtain ⟨next, r, result, inv', -⟩ := inv.get_spec once free
    exact ⟨next, by simp [AideOp.apply, result], inv'⟩
  | start a proxy =>
    refine ⟨_, rfl, inv.alike ⟨rfl, rfl, rfl, rfl, rfl, rfl⟩ (inv.calls.start ?_ ?_ ready) inv.touched id⟩
    · cases proxy <;> rfl
    · cases proxy <;> rfl
  | advance i again =>
    obtain ⟨c, there, -⟩ := ready
    obtain ⟨next, phase, result, inv'⟩ := inv.advance_spec there again
    exact ⟨_, by simp [AideOp.apply, there, result], inv'⟩
  | forkPrepare => exact ⟨_, rfl, inv.locks s.once true id⟩
  | forkParent => exact ⟨_, rfl, inv.locks s.once false id⟩
  | forkChild => exact inv.forkChild_spec
  | fork child =>
    cases child with
    | false => exact ⟨s, rfl, inv⟩
    | true => exact ⟨s.inherit, rfl, inv.fork_spec ready⟩

/-- The aides of a process are shared, detached and destroyed as their users expect. -/
structure Lifetime (s : AideProcess) : Prop where
  counted : ∀ a x, s.aides a = some x → x.refCount = s.outstanding a
  current : s.aide = 0 ∨ ∃ x, s.aides s.aide = some x ∧ x.orphan = false ∧ 1 ≤ x.refCount
  /-- The aide that a get returns is no orphan, and has not been destroyed since its creation. -/
  gets : ∀ calloc next r, (AideOp.get calloc).Ready s → s.get calloc = some (next, r) → r ≠ 0 →
    ∃ x, next.aides r = some x ∧ x.orphan = false ∧ 1 ≤ x.refCount ∧ next.destroys r = 0
  destroyed : ∀ a, s.created a = true → s.destroys a = if s.outstanding a = 0 then 1 else 0
  untouched : ∀ t ∈ s.touched, t.inherited = false
  /-- No step uses an aide that has been freed. -/
  returns : ∀ op : AideOp, op.Ready s → ∃ next, op.apply s = some next

theorem Inv.lifetime (inv : s.Inv) : s.Lifetime where
  counted a x there := ((inv.core.sound a (inv.core.nonnull there)).counted x there).1
  current := by
    by_cases none : s.aide = 0
    · exact .inl none
    · obtain ⟨x, there, own, positive⟩ := (inv.core.sound s.aide none).current rfl
      exact .inr ⟨x, there, own, Nat.one_le_iff_ne_zero.mpr positive⟩
  gets calloc next r ready result some := by
    obtain ⟨once, -, free⟩ := ready
    obtain ⟨next', r', result', -, spec⟩ := inv.get_spec once free
    cases result.symm.trans result'
    obtain ⟨x, there, own, positive, undestroyed⟩ := spec some
    exact ⟨x, there, own, Nat.one_le_iff_ne_zero.mpr positive, undestroyed⟩
  destroyed a created := by
    have nonnull : a ≠ 0 := by
      rintro rfl
      exact nomatch inv.core.null.2.2.symm.trans created
    exact (inv.core.sound a nonnull).destroys created
  untouched := inv.touched
  returns op ready := by
    obtain ⟨next, result, -⟩ := inv.step ready
    exact ⟨next, result⟩

theorem Inv.initial (start : aideSystem.init s) : s.Inv := by
  obtain ⟨absent, aide, -, -, calls, outstanding, created, inherited, touched⟩ := start
  refine ⟨⟨⟨absent 0, outstanding 0, created 0⟩, fun a nonnull => ?_⟩, Calls.of_nil calls, ?_, fun _ => absent⟩
  · constructor
    · simp [absent]
    · exact fun _ => outstanding a
    · exact fun here => absurd (here.symm.trans aide) nonnull
    · simp [absent]
    · simp [absent]
    · simp [created]
  · simp [touched]

end AideProcess

end HevTaskSystem
