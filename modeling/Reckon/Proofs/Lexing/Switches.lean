import Reckon.Proofs.Rendering.Widening

/-!
# Settings of options

Options are built from a set of capabilities by settings, which put one switch on or off each: that of an operator or
of a capability, by its name, or that of member access (`Options.Built`). A setting changes what its switch shows and
nothing else (`Options.shows_put`), and options are given by what their switches show (`Options.Built.ext_shows`). So
of many settings only the last one of each switch counts (`Options.shows_putAll`), and an operator is on if its
capability and its own text were not switched off last (`Options.last_setting_wins`).
-/

namespace Reckon

/-! ## Names of capabilities -/

theorem Capability.ofName?_name (c : Capability) : ofName? c.name = some c := by
  cases c <;> decide

theorem Capability.ofName?_eq_some_iff {name : String} {c : Capability} : ofName? name = some c ↔ c.name = name := by
  constructor
  · intro h
    simpa using List.find?_some (p := fun c : Capability => c.name = name) h
  · rintro rfl
    exact c.ofName?_name

theorem Capability.name_inj {c d : Capability} : c.name = d.name ↔ c = d := by
  rw [← ofName?_eq_some_iff, ofName?_name, Option.some.injEq, eq_comm]

/-- A name without a capability is the name of none. -/
theorem Capability.ofName?_eq_none_iff {name : String} : ofName? name = none ↔ ∀ c : Capability, c.name ≠ name := by
  constructor
  · rintro h c rfl
    rw [c.ofName?_name] at h
    cases h
  · intro h
    cases hname : ofName? name with
    | none => rfl
    | some c => exact absurd (ofName?_eq_some_iff.1 hname) (h c)

namespace Options

/-! ## Settings -/

/-- What can be switched. -/
inductive Switch
  /-- A capability or an operator, by its name. -/
  | operator (name : String)
  /-- Member access. -/
  | memberAccess
  deriving DecidableEq, Repr

/-- A switch and where it is put. -/
abbrev Setting := Switch × Bool

/-- Puts one switch on or off. -/
def put (o : Options) : Setting → Options
  | (.operator name, on) => o.set name on
  | (.memberAccess, on) => o.withMemberAccess on

/-- Puts one switch after the other. -/
def putAll (o : Options) (settings : List Setting) : Options :=
  settings.foldl put o

/-- Where the settings put a switch last, if they do. -/
def last? (s : Switch) (settings : List Setting) : Option Bool :=
  settings.reverse.lookup s

/-- What a switch shows. -/
def shows (o : Options) : Switch → Bool
  | .operator name =>
    match Capability.ofName? name with
    | some c => o.allows c
    | none => decide (name ∉ o.disabled)
  | .memberAccess => o.memberAccess

/-- The options that can be built: some capabilities with or without member access, and settings. -/
inductive Built : Options → Prop
  | new (allows : Capability → Bool) (memberAccess : Bool) : Built ⟨allows, memberAccess, .empty⟩
  | put {o : Options} (h : Built o) (e : Setting) : Built (o.put e)

variable {o : Options}

theorem putAll_concat (settings : List Setting) (e : Setting) :
    o.putAll (settings ++ [e]) = (o.putAll settings).put e := by
  simp [putAll]

theorem last?_concat (s : Switch) (settings : List Setting) (e : Setting) :
    last? s (settings ++ [e]) = if e.1 = s then some e.2 else last? s settings := by
  obtain ⟨t, on⟩ := e
  by_cases h : t = s
  · simp [last?, h]
  · have hbeq : (s == t) = false := beq_false_of_ne (Ne.symm h)
    simp [last?, List.lookup_cons, h, hbeq]

theorem shows_capability (c : Capability) : o.shows (.operator c.name) = o.allows c := by
  simp [shows, c.ofName?_name]

theorem shows_text {name : String} (h : Capability.ofName? name = none) :
    o.shows (.operator name) = decide (name ∉ o.disabled) := by
  simp [shows, h]

/-! ## One setting -/

theorem shows_setCapability (c : Capability) (on : Bool) (name : String) :
    (o.setCapability c on).shows (.operator name) = if c.name = name then on else o.shows (.operator name) := by
  cases hname : Capability.ofName? name with
  | none =>
    have hne : c.name ≠ name := Capability.ofName?_eq_none_iff.1 hname c
    rw [if_neg hne, shows_text hname, shows_text hname]
    rfl
  | some d =>
    obtain rfl := Capability.ofName?_eq_some_iff.1 hname
    simp [shows, hname, setCapability, Capability.name_inj, eq_comm]

theorem shows_setText {op : String} (hop : Capability.ofName? op = none) (on : Bool) (name : String) :
    (o.setText op on).shows (.operator name) = if op = name then on else o.shows (.operator name) := by
  cases hname : Capability.ofName? name with
  | some d =>
    obtain rfl := Capability.ofName?_eq_some_iff.1 hname
    have hne : op ≠ d.name := (Capability.ofName?_eq_none_iff.1 hop d).symm
    simp [shows, hname, setText, hne]
  | none =>
    by_cases heq : op = name
    · cases on <;> simp [shows, hname, setText, NameSet.mem_erase, NameSet.mem_insert, heq]
    · cases on <;> simp [shows, hname, setText, NameSet.mem_erase, NameSet.mem_insert, heq]

/-- A setting puts its own switch and no other. -/
theorem shows_put (e : Setting) (s : Switch) : (o.put e).shows s = if e.1 = s then e.2 else o.shows s := by
  obtain ⟨t, on⟩ := e
  cases t with
  | memberAccess => cases s <;> rfl
  | operator name =>
    cases hname : Capability.ofName? name with
    | some c =>
      obtain rfl := Capability.ofName?_eq_some_iff.1 hname
      cases s with
      | memberAccess => simp [put, set, hname, shows, setCapability]
      | operator other => simp [put, set, hname, shows_setCapability]
    | none =>
      cases s with
      | memberAccess => simp [put, set, hname, shows, setText]
      | operator other => simp [put, set, hname, shows_setText hname]

/-- Settings keep the names of capabilities out of the operators that are switched off by their text. -/
theorem Built.notMem_disabled (h : Built o) (c : Capability) : c.name ∉ o.disabled := by
  induction h with
  | new allows memberAccess => exact NameSet.not_mem_empty _
  | @put o _ e ih =>
    obtain ⟨s, on⟩ := e
    cases s with
    | memberAccess => exact ih
    | operator name =>
      cases hname : Capability.ofName? name with
      | some d => simpa [Options.put, set, hname, setCapability] using ih
      | none =>
        have hne : name ≠ c.name := fun heq => Capability.ofName?_eq_none_iff.1 hname c heq.symm
        cases on <;> simp [Options.put, set, hname, setText, NameSet.mem_erase, NameSet.mem_insert, hne, ih]

/-- Options that can be built are given by what their switches show. -/
theorem Built.ext_shows {o' : Options} (h : Built o) (h' : Built o') (hshows : ∀ s, o.shows s = o'.shows s) :
    o = o' := by
  have hallows : o.allows = o'.allows := by
    funext c
    rw [← shows_capability, ← shows_capability, hshows]
  have hdisabled : o.disabled = o'.disabled := by
    refine NameSet.ext_mem fun name => ?_
    cases hname : Capability.ofName? name with
    | some c =>
      obtain rfl := Capability.ofName?_eq_some_iff.1 hname
      exact iff_of_false (h.notMem_disabled c) (h'.notMem_disabled c)
    | none =>
      have hboth := hshows (.operator name)
      rw [shows_text hname, shows_text hname, decide_eq_decide] at hboth
      exact not_iff_not.1 hboth
  have hmember : o.memberAccess = o'.memberAccess := hshows .memberAccess
  cases o
  cases o'
  simp_all

/-! ## Many settings -/

theorem Built.putAll (h : Built o) (settings : List Setting) : Built (o.putAll settings) := by
  induction settings using List.reverseRecOn with
  | nil => exact h
  | append_singleton settings e ih =>
    rw [putAll_concat]
    exact ih.put e

/-- After many settings a switch shows where it was put last, and what it showed before if it was not put. -/
theorem shows_putAll (settings : List Setting) (s : Switch) :
    (o.putAll settings).shows s = (last? s settings).getD (o.shows s) := by
  induction settings using List.reverseRecOn with
  | nil => rfl
  | append_singleton settings e ih =>
    rw [putAll_concat, shows_put, last?_concat, ih]
    split <;> rfl

/-- An operator is on if its capability shows on, if it has one, and so does its text, if that can be switched. -/
theorem Built.enables_iff (h : Built o) {op : String} : o.enables op = true ↔
    (∀ c, Capability.guard? op = some c → o.shows (.operator c.name) = true) ∧
      (Capability.ofName? op = none → o.shows (.operator op) = true) := by
  rw [Options.enables_iff]
  refine and_congr (forall₂_congr fun c _ => by rw [shows_capability]) ?_
  cases hop : Capability.ofName? op with
  | some c =>
    obtain rfl := Capability.ofName?_eq_some_iff.1 hop
    simp [h.notMem_disabled c]
  | none => simp [shows_text hop]

/-- Settings of different switches may change places. -/
theorem Built.put_comm (h : Built o) {s t : Switch} (hne : s ≠ t) (on on' : Bool) :
    (o.put (s, on)).put (t, on') = (o.put (t, on')).put (s, on) := by
  refine ((h.put _).put _).ext_shows ((h.put _).put _) fun u => ?_
  simp only [shows_put]
  by_cases hs : s = u
  · subst hs
    simp [hne.symm]
  · simp [hs]

/-- The last setting of each switch counts: settings that put each switch last to the same place lead to the same
options, and settings of different switches may change places. An operator is on if and only if the capability that
guards it, if there is one, was put on last, or was on if it was not put, and likewise for its own text, unless that is
the name of a capability. Member access is where its own switch was put last. -/
theorem last_setting_wins (h : Built o) (settings : List Setting) :
    (∀ others, (∀ s, last? s settings = last? s others) → o.putAll settings = o.putAll others) ∧
      (∀ s t on on', s ≠ t → (o.put (s, on)).put (t, on') = (o.put (t, on')).put (s, on)) ∧
      (∀ op, (o.putAll settings).enables op = true ↔
        (∀ c, Capability.guard? op = some c → (last? (.operator c.name) settings).getD (o.allows c) = true) ∧
          (Capability.ofName? op = none → (last? (.operator op) settings).getD (decide (op ∉ o.disabled)) = true)) ∧
      (o.putAll settings).memberAccess = (last? .memberAccess settings).getD o.memberAccess := by
  have hbuilt : Built (o.putAll settings) := h.putAll settings
  refine ⟨fun others hlast => ?_, fun s t on on' hne => h.put_comm hne on on', fun op => ?_,
    shows_putAll settings .memberAccess⟩
  · refine hbuilt.ext_shows (h.putAll others) fun s => ?_
    rw [shows_putAll, shows_putAll, hlast]
  · rw [hbuilt.enables_iff]
    refine and_congr (forall₂_congr fun c _ => ?_) (forall_congr' fun hop => ?_)
    · rw [shows_putAll, shows_capability]
    · rw [shows_putAll, shows_text hop]

/-- Logical operators are switched off, `and` on its own too, and then on again. -/
theorem last_setting_wins_logical :
    let settings : List Setting :=
      [(.operator "logical", false), (.operator "and", false), (.memberAccess, false), (.operator "logical", true)]
    Built standard ∧ (standard.putAll settings).enables "or" = true ∧ (standard.putAll settings).enables "and" = false ∧
      (standard.putAll settings).memberAccess = false := by
  intro settings
  have hbuilt : Built standard := .new _ _
  obtain ⟨-, -, henables, hmember⟩ := last_setting_wins hbuilt settings
  refine ⟨hbuilt, (henables "or").2 (by decide), ?_, hmember⟩
  rw [Bool.eq_false_iff, Ne, henables]
  decide

end Options

end Reckon
