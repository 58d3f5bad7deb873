import Reckon.NameSet

/-!
# Options of a code

An operator can be switched off in two ways: by its capability, which may guard several operators, or by its own text.
`Options.set` takes either name; a capability name is never the text of an operator, `in` apart, which is guarded by
the capability of the same name. Member access has a switch of its own.
-/

namespace Reckon

-- zero is the built-in one, whatever else has a zero
attribute [local instance (high)] Zero.ofOfNat0

/-- A group of operators that is switched as one. -/
inductive Capability
  | add | subtract | multiply | divide | remainder | power | factorial | comparison | concatenate | logical
  | conditional | membership
  deriving DecidableEq, Repr

namespace Capability

/-- All capabilities, by their bits. -/
def all : List Capability :=
  [add, subtract, multiply, divide, remainder, power, factorial, comparison, concatenate, logical, conditional,
    membership]

theorem mem_all (c : Capability) : c ∈ all := by
  cases c <;> decide

/-- The name by which a capability is switched. -/
def name : Capability → String
  | add => "add"
  | subtract => "subtract"
  | multiply => "multiply"
  | divide => "divide"
  | remainder => "remainder"
  | power => "power"
  | factorial => "factorial"
  | comparison => "comparison"
  | concatenate => "concatenate"
  | logical => "logical"
  | conditional => "conditional"
  | membership => "in"

/-- The capability of this name. -/
def ofName? (s : String) : Option Capability :=
  all.find? fun c => c.name = s

/-- The operators that a capability guards. -/
def operators : Capability → List String
  | add => ["+"]
  | subtract => ["-"]
  | multiply => ["*"]
  | divide => ["/"]
  | remainder => ["%"]
  | power => ["^"]
  | factorial => ["!"]
  | comparison => ["<", ">", "<=", ">=", "==", "!="]
  | concatenate => ["||"]
  | logical => ["and", "or", "not"]
  | conditional => ["?", ":"]
  | membership => ["in"]

/-- The capability that guards an operator. -/
def guard? (op : String) : Option Capability :=
  all.find? fun c => c.operators.contains op

/-- The bit of a capability in a mask. -/
def bit : Capability → Nat
  | add => 1
  | subtract => 2
  | multiply => 4
  | divide => 8
  | remainder => 16
  | power => 32
  | factorial => 64
  | comparison => 128
  | concatenate => 256
  | logical => 512
  | conditional => 1024
  | membership => 2048

end Capability

/-- What a code may use. -/
structure Options where
  /-- The capabilities that are switched on. -/
  allows : Capability → Bool
  /-- May fields be accessed? -/
  memberAccess : Bool
  /-- The operators that are switched off by their own text. -/
  disabled : NameSet

namespace Options

/-- Everything but the membership test is on. -/
def standard : Options where
  allows c := c ≠ .membership
  memberAccess := true
  disabled := .empty

instance : Inhabited Options := ⟨standard⟩

/-- Options are equal if all switches agree. -/
instance : DecidableEq Options := fun a b =>
  decidable_of_iff ((∀ c ∈ Capability.all, a.allows c = b.allows c) ∧ a.memberAccess = b.memberAccess ∧
      a.disabled = b.disabled) <| by
    constructor
    · rintro ⟨hc, hm, hd⟩
      cases a; cases b
      simp only [mk.injEq]
      exact ⟨funext fun c => hc c c.mem_all, hm, hd⟩
    · rintro rfl
      exact ⟨fun _ _ => rfl, rfl, rfl⟩

/-- Switches a capability. -/
def setCapability (o : Options) (c : Capability) (on : Bool) : Options :=
  { o with allows := fun d => if d = c then on else o.allows d }

/-- Switches a single operator. -/
def setText (o : Options) (op : String) (on : Bool) : Options :=
  { o with disabled := if on then o.disabled.erase op else o.disabled.insert op }

/-- Switches a capability by its name, or else an operator by its text. -/
def set (o : Options) (name : String) (on : Bool) : Options :=
  match Capability.ofName? name with
  | some c => o.setCapability c on
  | none => o.setText name on

/-- Switches member access. -/
def withMemberAccess (o : Options) (on : Bool) : Options :=
  { o with memberAccess := on }

/-- Is this operator switched on, by its capability and by its text? -/
def enables (o : Options) (op : String) : Bool :=
  (match Capability.guard? op with
    | some c => o.allows c
    | none => true) && decide (op ∉ o.disabled)

/-- The switches as one number: a bit for each capability, and one for member access. -/
def mask (o : Options) : Nat :=
  ((Capability.all.filter o.allows).map Capability.bit).sum + if o.memberAccess then 4096 else 0

end Options

end Reckon
