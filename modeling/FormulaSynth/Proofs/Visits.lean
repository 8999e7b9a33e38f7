import FormulaSynth.Proofs.Meaning
import Mathlib

/-!
# The first fault of a tree

Code generation walks through a tree, calls before their arguments and operands from left to right, and stops at
the first visit that is at fault. The one fault that depends on the visits before it is a constant that finds no
room in the pool any more. As long as nothing is at fault, the pool holds what the visits brought, once each and in
the order in which the code first uses it.
-/

set_option autoImplicit false
namespace FormulaSynth.Formula

/-- A leaf, or a call with the number of its arguments. -/
inductive Visit
  | number (value : Binary64) (position : Position)
  | ident (name : String) (position : Position)
  | call (name : String) (given : ℕ) (position : Position)
deriving DecidableEq, Repr

namespace Visit

def position : Visit → Position
  | number _ position | ident _ position | call _ _ position => position

def constant? : Visit → Option Binary64
  | number value _ => some value
  | ident name _ => namedConstant? name
  | call .. => none

end Visit

/-- The leaves and calls of a tree in the order of the walk. -/
def Tree.visits : Tree → List Visit
  | .number value position => [.number value position]
  | .ident name position => [.ident name position]
  | .neg operand => operand.visits
  | .binary _ left right => left.visits ++ right.visits
  | .call name args position => .call name args.length position :: visitsAll args
where
  visitsAll : List Tree → List Visit
    | [] => []
    | t :: rest => t.visits ++ visitsAll rest

def constantsOf (visits : List Visit) : List Binary64 := visits.filterMap Visit.constant?

def knownNames : List String := ["x", "pi", "phi", "e", "eps"]

/-- What is at fault with a visit that comes after others. -/
inductive FaultAt (before : List Visit) : Visit → Fault → Prop
  | unknownName {name : String} {position : Position} (unknown : name ∉ knownNames) :
    FaultAt before (.ident name position) ⟨.unknownVariable name, position⟩
  | unknownFunction {name : String} {given : ℕ} {position : Position} (unknown : ∀ f ∈ builtins, f.name ≠ name) :
    FaultAt before (.call name given position) ⟨.unknownFunction name, position⟩
  | wrongArity {f : BuiltinEntry} {given : ℕ} {position : Position} (known : f ∈ builtins)
      (wrong : given ≠ f.params.length) :
    FaultAt before (.call f.name given position) ⟨.wrongArity f.name f.params.length given, position⟩
  | poolFull {v : Visit} {value : Binary64} (brings : v.constant? = some value) (new : value ∉ constantsOf before)
      (full : (constantsOf before).toFinset.card = 256) :
    FaultAt before v ⟨.tooManyConstants 256, v.position⟩

def Faultless (visits : List Visit) : Prop :=
  ∀ before v after, visits = before ++ v :: after → ∀ f, ¬FaultAt before v f

def FirstFault (visits : List Visit) (f : Fault) : Prop :=
  ∃ before v after, visits = before ++ v :: after ∧ Faultless before ∧ FaultAt before v f

/-- Names and calls are the known ones, and the constants fit into the pool. -/
structure Tree.WellFormed (t : Tree) : Prop where
  names : ∀ name position, .ident name position ∈ t.visits → name ∈ knownNames
  calls : ∀ name given position, .call name given position ∈ t.visits →
    ∃ f ∈ builtins, f.name = name ∧ f.params.length = given
  pool : (constantsOf t.visits).toFinset.card ≤ 256

/-! ## Faults of one visit -/

theorem knownNames_iff (name : String) : name ∈ knownNames ↔ name = "x" ∨ (namedConstant? name).isSome := by
  have keys : (namedConstant? name).isSome ↔ name ∈ namedConstants.map Prod.fst := by
    unfold namedConstant?
    rw [List.lookup_isSome_iff, List.mem_map]
    refine exists_congr fun constant => and_congr_right fun _ => ?_
    rw [beq_iff_eq, eq_comm]
  rw [keys]
  exact List.mem_cons

theorem builtin?_name : ∀ f ∈ builtins, builtin? f.name = some f := by decide

theorem FaultAt.full {before : List Visit} {v : Visit} {f : Fault} (h : FaultAt before v f) {value : Binary64}
    (brings : v.constant? = some value) :
    value ∉ constantsOf before ∧ (constantsOf before).toFinset.card = 256 := by
  cases h with
  | @unknownName name position unknown =>
    refine absurd ((knownNames_iff name).mpr (Or.inr ?_)) unknown
    exact Option.isSome_of_eq_some brings
  | unknownFunction => cases brings
  | wrongArity => cases brings
  | poolFull brings' new full =>
    rw [brings'] at brings
    cases brings
    exact ⟨new, full⟩

theorem not_faultAt_argument (before : List Visit) (position : Position) (f : Fault) :
    ¬FaultAt before (.ident "x" position) f := by
  intro h
  cases h with
  | unknownName unknown => exact unknown (by decide)
  | poolFull brings => cases brings

theorem faultAt_call_iff {before : List Visit} {name : String} {given : ℕ} {position : Position} {f : Fault} :
    FaultAt before (.call name given position) f ↔ Draft.callee name given position = .error f := by
  constructor
  · intro h
    cases h with
    | unknownFunction unknown =>
      have none : builtin? name = none := by
        refine List.find?_eq_none.mpr fun f mem same => unknown f mem ?_
        exact eq_of_beq same
      rw [Draft.callee, none]
    | @wrongArity g _ _ known wrong =>
      rw [Draft.callee, builtin?_name g known]
      exact if_neg wrong
    | poolFull brings => cases brings
  · intro h
    unfold Draft.callee at h
    split at h
    · rename_i none
      cases h
      refine .unknownFunction fun f mem same => List.find?_eq_none.mp none f mem ?_
      exact beq_iff_eq.mpr same
    · rename_i g found
      split at h
      · cases h
      · rename_i wrong
        cases h
        have named : g.name = name := by simpa using List.find?_some found
        rw [← named]
        exact .wrongArity (List.mem_of_find?_eq_some found) wrong

theorem FaultAt.unique {before : List Visit} {v : Visit} {f g : Fault} (hf : FaultAt before v f)
    (hg : FaultAt before v g) : f = g := by
  cases v with
  | number value position =>
    cases hf
    cases hg
    rfl
  | ident name position =>
    cases hf with
    | unknownName unknown =>
      cases hg with
      | unknownName => rfl
      | poolFull brings =>
        exact absurd ((knownNames_iff name).mpr (Or.inr (Option.isSome_of_eq_some brings))) unknown
    | poolFull brings =>
      cases hg with
      | unknownName unknown =>
        exact absurd ((knownNames_iff name).mpr (Or.inr (Option.isSome_of_eq_some brings))) unknown
      | poolFull => rfl
  | call name given position =>
    rw [faultAt_call_iff] at hf hg
    exact Except.error.inj (hf.symm.trans hg)

/-! ## Faults of a walk -/

theorem faultless_nil : Faultless [] := fun _ _ _ h => absurd h (by simp)

theorem faultless_concat {vs : List Visit} {v : Visit} :
    Faultless (vs ++ [v]) ↔ Faultless vs ∧ ∀ f, ¬FaultAt vs v f := by
  constructor
  · intro h
    refine ⟨fun before w after split => ?_, h vs v [] rfl⟩
    exact h before w (after ++ [v]) (by rw [split, List.append_assoc, List.cons_append])
  · rintro ⟨clean, fine⟩ before w after split
    rcases List.eq_nil_or_concat after with rfl | ⟨rest, last, rfl⟩
    · obtain ⟨rfl, same⟩ := List.append_inj' split rfl
      cases same
      exact fine
    · have split' : vs ++ [v] = (before ++ w :: rest) ++ [last] := by
        rw [split, List.concat_eq_append, List.append_assoc, List.cons_append]
      exact clean before w rest (List.append_inj' split' rfl).1

theorem FirstFault.append {vs : List Visit} {f : Fault} (h : FirstFault vs f) (more : List Visit) :
    FirstFault (vs ++ more) f := by
  obtain ⟨before, v, after, split, clean, fault⟩ := h
  exact ⟨before, v, after ++ more, by rw [split, List.append_assoc, List.cons_append], clean, fault⟩

theorem FirstFault.not_faultless {vs : List Visit} {f : Fault} (h : FirstFault vs f) : ¬Faultless vs := by
  obtain ⟨before, v, after, split, -, fault⟩ := h
  exact fun clean => clean before v after split f fault

theorem FirstFault.unique {vs : List Visit} {f g : Fault} (hf : FirstFault vs f) (hg : FirstFault vs g) :
    f = g := by
  obtain ⟨before, v, after, split, clean, fault⟩ := hf
  obtain ⟨before', v', after', split', clean', fault'⟩ := hg
  rcases List.append_eq_append_iff.mp (split.symm.trans split') with ⟨mid, rfl, rest⟩ | ⟨mid, rfl, rest⟩
  · cases mid with
    | nil =>
      cases rest
      rw [List.append_nil] at fault'
      exact fault.unique fault'
    | cons w mid =>
      cases rest
      exact absurd fault (clean' before v mid rfl f)
  · cases mid with
    | nil =>
      cases rest
      rw [List.append_nil] at fault
      exact fault.unique fault'
    | cons w mid =>
      cases rest
      exact absurd fault' (clean before' v' mid rfl g)

theorem Tree.WellFormed.not_firstFault {t : Tree} (h : t.WellFormed) (f : Fault) : ¬FirstFault t.visits f := by
  rintro ⟨before, v, after, split, -, fault⟩
  have mem : v ∈ t.visits := by
    rw [split]
    exact List.mem_append_right _ List.mem_cons_self
  cases fault with
  | @unknownName name position unknown => exact unknown (h.names name position mem)
  | @unknownFunction name given position unknown =>
    obtain ⟨f, known, named, -⟩ := h.calls name given position mem
    exact unknown f known named
  | @wrongArity f given position known wrong =>
    obtain ⟨g, known', named, given'⟩ := h.calls f.name given position mem
    have same : some g = some f := by rw [← builtin?_name g known', ← builtin?_name f known, named]
    cases same
    exact wrong given'.symm
  | @poolFull _ value brings new full =>
    have pool := h.pool
    have more : insert value (constantsOf before).toFinset ⊆ (constantsOf t.visits).toFinset := by
      rw [split]
      intro other mem
      rw [constantsOf, List.filterMap_append, List.filterMap_cons_some brings]
      simp only [Finset.mem_insert, List.mem_toFinset, List.mem_append, List.mem_cons] at mem ⊢
      tauto
    have count := Finset.card_le_card more
    rw [Finset.card_insert_of_notMem (fun mem => new (List.mem_toFinset.mp mem)), full] at count
    omega

/-! ## The draft that a walk leaves -/

def Op.slot? : Op → Option ℕ
  | .const slot => some slot.toNat
  | _ => none

def slotsOf (code : List Op) : List ℕ := code.filterMap Op.slot?

theorem slotsOf_push (d : Draft) (slot : UInt8) :
    slotsOf (d.push (.const slot)).code.toList = slotsOf d.code.toList ++ [slot.toNat] := by
  rw [Draft.push, slotsOf, Array.toList_push, List.filterMap_append]
  rfl

theorem constantsOf_concat {vs : List Visit} {v : Visit} {value : Binary64} (brings : v.constant? = some value) :
    constantsOf (vs ++ [v]) = constantsOf vs ++ [value] := by
  rw [constantsOf, List.filterMap_append, List.filterMap_cons_some brings]
  rfl

theorem eraseDups_concat (slots : List ℕ) (slot : ℕ) :
    (slots ++ [slot]).eraseDups = if slot ∈ slots then slots.eraseDups else slots.eraseDups ++ [slot] := by
  rw [List.eraseDups_append]
  split
  · rename_i mem
    simp [List.removeAll, mem]
  · rename_i new
    simp [List.removeAll, new, List.eraseDups_cons]

/-- What is known of a draft after visits without a fault. -/
structure Reflects (vs : List Visit) (d : Draft) : Prop where
  faultless : Faultless vs
  nodup : d.constants.toList.Nodup
  pool : ∀ value, value ∈ d.constants.toList ↔ value ∈ constantsOf vs
  bounded : d.Bounded
  values : (slotsOf d.code.toList).map (d.constants.toList[·]?) = (constantsOf vs).map some
  firstUse : (slotsOf d.code.toList).eraseDups = List.range d.constants.size

namespace Reflects

theorem empty : Reflects [] .empty where
  faultless := faultless_nil
  nodup := List.nodup_nil
  pool := fun _ => Iff.rfl
  bounded := Draft.bounded_empty
  values := rfl
  firstUse := rfl

theorem card {vs : List Visit} {d : Draft} (h : Reflects vs d) :
    (constantsOf vs).toFinset.card = d.constants.size := by
  have same : (constantsOf vs).toFinset = d.constants.toList.toFinset := by
    ext value
    rw [List.mem_toFinset, List.mem_toFinset, h.pool]
  rw [same, List.toFinset_card_of_nodup h.nodup, Array.length_toList]

theorem push {vs : List Visit} {d : Draft} (h : Reflects vs d) {op : Op} (plain : op.slot? = none) :
    Reflects vs (d.push op) := by
  have slots : slotsOf (d.push op).code.toList = slotsOf d.code.toList := by
    rw [Draft.push, slotsOf, Array.toList_push, List.filterMap_append]
    simp [plain, slotsOf]
  exact ⟨h.faultless, h.nodup, h.pool, h.bounded, by rw [slots]; exact h.values, by rw [slots]; exact h.firstUse⟩

theorem named {vs : List Visit} {d : Draft} (h : Reflects vs d) (names : List String) :
    Reflects vs { d with functions := names } :=
  ⟨h.faultless, h.nodup, h.pool, h.bounded, h.values, h.firstUse⟩

theorem skip {vs : List Visit} {d : Draft} (h : Reflects vs d) {v : Visit} (brings : v.constant? = none)
    (fine : ∀ f, ¬FaultAt vs v f) : Reflects (vs ++ [v]) d := by
  have same : constantsOf (vs ++ [v]) = constantsOf vs := by
    rw [constantsOf, List.filterMap_append]
    simp [brings, constantsOf]
  refine ⟨faultless_concat.mpr ⟨h.faultless, fine⟩, h.nodup, ?_, h.bounded, ?_, h.firstUse⟩
  · rw [same]
    exact h.pool
  · rw [same]
    exact h.values

theorem wellFormed {t : Tree} {d : Draft} (h : Reflects t.visits d) : t.WellFormed where
  names := by
    intro name position mem
    obtain ⟨before, after, split⟩ := List.append_of_mem mem
    by_contra unknown
    exact h.faultless before _ after split _ (.unknownName unknown)
  calls := by
    intro name given position mem
    obtain ⟨before, after, split⟩ := List.append_of_mem mem
    cases known : Draft.callee name given position with
    | error f => exact absurd (faultAt_call_iff.mpr known) (h.faultless before _ after split f)
    | ok f =>
      obtain ⟨mem, named, arity⟩ := callee_mem known
      exact ⟨f, mem, named, arity.symm⟩
  pool := h.card.trans_le h.bounded

theorem mem_slots_iff {vs : List Visit} {d : Draft} (h : Reflects vs d) {slot : ℕ} :
    slot ∈ slotsOf d.code.toList ↔ slot < d.constants.size := by
  rw [← List.mem_eraseDups, h.firstUse, List.mem_range]

theorem found {vs : List Visit} {d : Draft} (h : Reflects vs d) {v : Visit} {value : Binary64} {slot : ℕ}
    (brings : v.constant? = some value) (holds : d.constants.toList[slot]? = some value) :
    Reflects (vs ++ [v]) (d.push (.const slot.toUInt8)) := by
  have mem : value ∈ constantsOf vs := (h.pool value).mp (List.mem_of_getElem? holds)
  have below : slot < d.constants.size := by
    rw [← Array.length_toList]
    exact (List.getElem?_eq_some_iff.mp holds).choose
  have number : slot.toUInt8.toNat = slot := Draft.toNat_slot (below.trans_le h.bounded)
  have slots := slotsOf_push d slot.toUInt8
  rw [number] at slots
  refine ⟨faultless_concat.mpr ⟨h.faultless, fun f fault => (fault.full brings).1 mem⟩, h.nodup, ?_, h.bounded, ?_, ?_⟩
  · intro other
    rw [constantsOf_concat brings, List.mem_append, List.mem_singleton]
    exact (h.pool other).trans ⟨Or.inl, fun either => either.elim id fun same => same ▸ mem⟩
  · rw [slots, constantsOf_concat brings, List.map_append, List.map_append, ← h.values]
    exact congrArg _ (congrArg (fun found => [found]) holds)
  · rw [slots, eraseDups_concat, if_pos (h.mem_slots_iff.mpr below)]
    exact h.firstUse

theorem added {vs : List Visit} {d : Draft} (h : Reflects vs d) {v : Visit} {value : Binary64}
    (brings : v.constant? = some value) (new : value ∉ d.constants.toList) (room : d.constants.size < maxConstants) :
    Reflects (vs ++ [v])
      ({ d with constants := d.constants.push value }.push (.const d.constants.size.toUInt8)) := by
  have number : d.constants.size.toUInt8.toNat = d.constants.size := Draft.toNat_slot room
  have slots := slotsOf_push { d with constants := d.constants.push value } d.constants.size.toUInt8
  rw [number] at slots
  have pool : (d.constants.push value).toList = d.constants.toList ++ [value] := Array.toList_push
  refine ⟨faultless_concat.mpr ⟨h.faultless, fun f fault => ?_⟩, ?_, ?_, ?_, ?_, ?_⟩
  · have full := (fault.full brings).2
    rw [h.card] at full
    exact room.ne full
  · change (d.constants.push value).toList.Nodup
    rw [pool, List.nodup_append_comm]
    exact List.nodup_cons.mpr ⟨new, h.nodup⟩
  · intro other
    change other ∈ (d.constants.push value).toList ↔ _
    rw [pool, constantsOf_concat brings, List.mem_append, List.mem_append, h.pool]
  · change (d.constants.push value).size ≤ maxConstants
    rw [Array.size_push]
    exact room
  · have kept : ∀ slot ∈ slotsOf d.code.toList,
        (d.constants.push value).toList[slot]? = d.constants.toList[slot]? := by
      intro slot mem
      rw [pool]
      exact List.getElem?_append_left (by rw [Array.length_toList]; exact h.mem_slots_iff.mp mem)
    change (slotsOf _).map ((d.constants.push value).toList[·]?) = _
    rw [slots, constantsOf_concat brings, List.map_append, List.map_append, List.map_congr_left kept, h.values]
    refine congrArg _ (congrArg (fun found => [found]) ?_)
    rw [pool, ← Array.length_toList]
    exact List.getElem?_concat_length
  · have fresh : d.constants.size ∉ slotsOf d.code.toList := fun mem => lt_irrefl _ (h.mem_slots_iff.mp mem)
    rw [slots, eraseDups_concat, if_neg fresh, h.firstUse]
    change _ = List.range (d.constants.push value).size
    rw [Array.size_push, List.range_succ]

end Reflects

/-! ## The walk -/

/-- What a step of code generation answers once `vs` is visited: the draft of a walk without a fault, or the first
    fault of the walk. -/
def Outcome (vs : List Visit) : Except Fault Draft → Prop
  | .ok d => Reflects vs d
  | .error f => FirstFault vs f

namespace Outcome

theorem fault {vs : List Visit} {d : Draft} (h : Reflects vs d) {v : Visit} {f : Fault} (at' : FaultAt vs v f) :
    Outcome (vs ++ [v]) (.error f) :=
  ⟨vs, v, [], rfl, h.faultless, at'⟩

theorem bind {vs more : List Visit} {r : Except Fault Draft} {next : Draft → Except Fault Draft}
    (h : Outcome vs r) (go : ∀ d, Reflects vs d → Outcome (vs ++ more) (next d)) :
    Outcome (vs ++ more) (r >>= next) := by
  cases r with
  | ok d => exact go d h
  | error f => exact FirstFault.append h more

theorem push {vs : List Visit} {r : Except Fault Draft} (h : Outcome vs r) {op : Op} (plain : op.slot? = none) :
    Outcome vs (r >>= fun d => pure (d.push op)) := by
  cases r with
  | ok d => exact Reflects.push h plain
  | error f => exact h

theorem constant {vs : List Visit} {d : Draft} (h : Reflects vs d) {v : Visit} {value : Binary64}
    (brings : v.constant? = some value) : Outcome (vs ++ [v]) (d.constant value v.position) := by
  unfold Draft.constant
  split
  · rename_i slot found
    exact h.found brings (Draft.idxOf?_get found)
  · rename_i absent
    have new : value ∉ d.constants.toList := by
      rw [← Array.idxOf?_toList, List.idxOf?_eq_none_iff] at absent
      exact absent
    split
    · rename_i room
      exact h.added brings new room
    · rename_i full
      refine fault h (.poolFull brings (fun mem => new ((h.pool value).mpr mem)) ?_)
      rw [h.card]
      exact le_antisymm h.bounded (not_lt.mp full)

theorem ident {vs : List Visit} {d : Draft} (h : Reflects vs d) (name : String) (position : Position) :
    Outcome (vs ++ [.ident name position]) (d.ident name position) := by
  unfold Draft.ident
  split
  · rename_i argument
    subst argument
    exact (h.skip rfl (not_faultAt_argument vs position)).push rfl
  · rename_i other
    split
    · rename_i value named
      exact constant (v := .ident name position) h named
    · rename_i unnamed
      refine fault h (.unknownName fun known => ?_)
      rcases (knownNames_iff name).mp known with argument | named
      · exact other argument
      · rw [unnamed] at named
        cases named

end Outcome

mutual

/-- Code generation walks through the visits of the tree and stops at the first fault. -/
theorem emit_outcome {vs : List Visit} {d : Draft} (t : Tree) (h : Reflects vs d) :
    Outcome (vs ++ t.visits) (emit d t) := by
  cases t with
  | number value position => exact .constant (v := .number value position) h rfl
  | ident name position => exact .ident h name position
  | neg operand =>
    rw [emit]
    exact (emit_outcome operand h).push rfl
  | binary op left right =>
    rw [emit, Tree.visits, ← List.append_assoc]
    refine (emit_outcome left h).bind fun d₁ h₁ => (emit_outcome right h₁).push ?_
    cases op <;> rfl
  | call name args position =>
    rw [emit, Tree.visits, List.append_cons]
    cases known : Draft.callee name args.length position with
    | error f => exact FirstFault.append (Outcome.fault h (faultAt_call_iff.mpr known)) _
    | ok f =>
      have fine : ∀ g, ¬FaultAt vs (.call name args.length position) g := by
        intro g fault
        rw [faultAt_call_iff, known] at fault
        cases fault
      exact (emitAll_outcome args ((h.skip rfl fine).named _)).push rfl

theorem emitAll_outcome {vs : List Visit} {d : Draft} (args : List Tree) (h : Reflects vs d) :
    Outcome (vs ++ Tree.visits.visitsAll args) (emit.emitAll d args) := by
  cases args with
  | nil =>
    rw [Tree.visits.visitsAll, List.append_nil]
    exact h
  | cons t rest =>
    rw [emit.emitAll, Tree.visits.visitsAll, ← List.append_assoc]
    exact (emit_outcome t h).bind fun d₁ h₁ => emitAll_outcome rest h₁

end

/-- Code generation fails on the trees that are not well-formed and on no others, and what it tells is the first
    fault. -/
theorem compileTree_first_fault (t : Tree) :
    ((∃ p, compileTree t = .ok p) ↔ t.WellFormed) ∧
      ∀ f, compileTree t = .error f ↔ FirstFault t.visits f := by
  have outcome := emit_outcome t Reflects.empty
  rw [List.nil_append] at outcome
  unfold compileTree
  cases emitted : emit .empty t with
  | ok d =>
    rw [emitted] at outcome
    have reflects : Reflects t.visits d := outcome
    refine ⟨iff_of_true ⟨d.program, rfl⟩ ?_, fun f => iff_of_false nofun fun fault => ?_⟩
    · exact reflects.wellFormed
    · exact fault.not_faultless reflects.faultless
  | error f =>
    rw [emitted] at outcome
    have first : FirstFault t.visits f := outcome
    refine ⟨iff_of_false ?_ ?_, fun g => ?_⟩
    · rintro ⟨p, h⟩
      cases h
    · exact fun wellFormed => wellFormed.not_firstFault f first
    · constructor
      · intro h
        cases h
        exact first
      · intro other
        rw [first.unique other]
        rfl

end FormulaSynth.Formula
