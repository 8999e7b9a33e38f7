import FormulaSynth.Proofs.Calls
import FormulaSynth.Proofs.Timeline

set_option autoImplicit false
namespace FormulaSynth.Audio
open Number Score
variable {α : Type} [Number α]

def groupTime (group : List (Onset α)) : α := group.head?.elim 0 Onset.time

/-- Within a group all times are the same, and those of a later group are later. -/
structure Graded (gs : List (List (Onset α))) : Prop where
  filled : ∀ g ∈ gs, g ≠ []
  level : ∀ g ∈ gs, ∀ a ∈ g, ∀ b ∈ g, same a.time b.time = true
  apart : gs.Pairwise fun g h => ∀ a ∈ g, ∀ b ∈ h, lt a.time b.time = true

/-- The distinct times of the onsets, in ascending order. -/
structure Distinct (onsets : List (Onset α)) (times : List α) : Prop where
  ascending : times.Pairwise fun s t => lt s t = true
  taken : ∀ t ∈ times, ∃ onset ∈ onsets, onset.time = t
  once : ∀ onset ∈ onsets, ∃! t, t ∈ times ∧ same onset.time t = true

section Grading
variable [Ordered α] {onsets : List (Onset α)} {a b c : α}

theorem same_trans (ab : same a b = true) (bc : same b c = true) : same a c = true := by
  obtain ⟨ab, ba⟩ := Bool.and_eq_true_iff.mp ab
  obtain ⟨bc, cb⟩ := Bool.and_eq_true_iff.mp bc
  exact Bool.and_eq_true_iff.mpr ⟨Ordered.le_trans ab bc, Ordered.le_trans cb ba⟩

omit [Ordered α] in
theorem same_symm (ab : same a b = true) : same b a = true := by
  obtain ⟨ab, ba⟩ := Bool.and_eq_true_iff.mp ab
  exact Bool.and_eq_true_iff.mpr ⟨ba, ab⟩

theorem not_same_of_lt (ab : lt a b = true) : same a b = false := by
  rw [same, Ordered.not_le_of_lt ab, Bool.and_false]

theorem lt_of_le_of_not_same (ab : le a b = true) (other : same a b = false) : lt a b = true := by
  refine Ordered.lt_iff.mpr ⟨ab, ?_⟩
  rw [same, ab, Bool.true_and] at other
  exact other

omit [Ordered α] in
theorem timeGroups_flatten (onsets : List (Onset α)) : (timeGroups onsets).flatten = onsets := List.flatten_splitBy _ _

theorem timeGroups_same (comparable : ∀ onset ∈ onsets, le onset.time onset.time = true) :
    ∀ g ∈ timeGroups onsets, ∀ a ∈ g, ∀ b ∈ g, same a.time b.time = true := by
  intro g mem
  -- neighbours have the same time, which goes from one to the next through the whole group
  let together (a b : Onset α) : Prop := same a.time b.time = true
  have flat := timeGroups_flatten onsets
  have chain : g.IsChain together := List.isChain_of_mem_splitBy mem
  have trans : IsTrans (Onset α) together := ⟨fun _ _ _ => same_trans⟩
  have symm : Std.Symm together := ⟨fun _ _ => same_symm⟩
  refine chain.pairwise.forall_of_forall fun a inside => ?_
  have reflexive := comparable a (flat ▸ List.mem_flatten_of_mem mem inside)
  exact Bool.and_eq_true_iff.mpr ⟨reflexive, reflexive⟩

/-- All of one group is earlier than all of another. A group without onsets would be before and behind every other, so
    they are required to have some. -/
def Before (g h : List (Onset α)) : Prop := (g ≠ [] ∧ h ≠ []) ∧ ∀ a ∈ g, ∀ b ∈ h, lt a.time b.time = true

theorem before_trans {g h i : List (Onset α)} (gh : Before g h) (hi : Before h i) : Before g i := by
  obtain ⟨⟨some, middle⟩, gh⟩ := gh
  obtain ⟨⟨-, some'⟩, hi⟩ := hi
  obtain ⟨m, hm⟩ := List.exists_mem_of_ne_nil h middle
  exact ⟨⟨some, some'⟩, fun a ha b hb => Ordered.lt_of_lt_of_le (gh a ha m hm) (Ordered.le_of_lt (hi m hm b hb))⟩

theorem timeGroups_before (ascending : onsets.Pairwise fun a b => earlier a b = true)
    (comparable : ∀ onset ∈ onsets, le onset.time onset.time = true) : (timeGroups onsets).IsChain Before := by
  have flat := timeGroups_flatten onsets
  have level := timeGroups_same comparable
  rw [← flat] at ascending
  have across := (List.pairwise_flatten.mp ascending).2.isChain
  have borders := List.isChain_getLast_head_splitBy (fun a b : Onset α => same a.time b.time) onsets
  change (timeGroups onsets).IsChain _ at borders
  rw [List.isChain_iff_getElem] at across borders ⊢
  intro i hi
  obtain ⟨hg, hh, border⟩ := borders i hi
  have last := List.getLast_mem hg
  have first := List.head_mem hh
  have meets := lt_of_le_of_not_same (across i hi _ last _ first) border
  refine ⟨⟨hg, hh⟩, fun a ha b hb => ?_⟩
  have left := level _ (List.getElem_mem _) a ha _ last
  have right := level _ (List.getElem_mem _) _ first b hb
  have leaves := Ordered.lt_of_le_of_lt (Bool.and_eq_true_iff.mp left).1 meets
  exact Ordered.lt_of_lt_of_le leaves (Bool.and_eq_true_iff.mp right).1

theorem timeGroups_graded (ascending : onsets.Pairwise fun a b => earlier a b = true)
    (comparable : ∀ onset ∈ onsets, le onset.time onset.time = true) : Graded (timeGroups onsets) := by
  have trans : IsTrans (List (Onset α)) Before := ⟨fun _ _ _ => before_trans⟩
  have apart := (timeGroups_before ascending comparable).pairwise
  exact ⟨fun _ => List.ne_nil_of_mem_splitBy, timeGroups_same comparable, apart.imp And.right⟩

end Grading

namespace Graded
variable [Ordered α] {gs pre post : List (List (Onset α))} {g : List (Onset α)}

omit [Ordered α] in
theorem time_mem (graded : Graded gs) (mem : g ∈ gs) : ∃ onset ∈ g, onset.time = groupTime g := by
  obtain ⟨first, rest, rfl⟩ := List.exists_cons_of_ne_nil (graded.filled g mem)
  exact ⟨first, List.mem_cons_self, rfl⟩

omit [Ordered α] in
theorem same_time (graded : Graded gs) (mem : g ∈ gs) {onset : Onset α} (inside : onset ∈ g) :
    same onset.time (groupTime g) = true := by
  obtain ⟨first, here, eq⟩ := graded.time_mem mem
  rw [← eq]
  exact graded.level g mem onset inside first here

omit [Ordered α] in
theorem before (graded : Graded (pre ++ g :: post)) {onset : Onset α} (inside : onset ∈ pre.flatten) :
    lt onset.time (groupTime g) = true := by
  obtain ⟨h, mem, inside⟩ := List.mem_flatten.mp inside
  obtain ⟨first, here, eq⟩ := graded.time_mem (g := g) (List.mem_append_right _ List.mem_cons_self)
  rw [← eq]
  exact (List.pairwise_append.mp graded.apart).2.2 h mem g List.mem_cons_self onset inside first here

omit [Ordered α] in
theorem after (graded : Graded (pre ++ g :: post)) {onset : Onset α} (inside : onset ∈ post.flatten) :
    lt (groupTime g) onset.time = true := by
  obtain ⟨h, mem, inside⟩ := List.mem_flatten.mp inside
  obtain ⟨first, here, eq⟩ := graded.time_mem (g := g) (List.mem_append_right _ List.mem_cons_self)
  rw [← eq]
  exact List.rel_of_pairwise_cons (List.pairwise_append.mp graded.apart).2.1 mem first here onset inside

theorem filter_eq (graded : Graded (pre ++ g :: post)) :
    (pre ++ g :: post).flatten.filter (fun onset => same onset.time (groupTime g)) = g := by
  have mem : g ∈ pre ++ g :: post := List.mem_append_right _ List.mem_cons_self
  have none : pre.flatten.filter (fun onset => same onset.time (groupTime g)) = [] := by
    rw [List.filter_eq_nil_iff]
    intro onset inside
    rw [not_same_of_lt (graded.before inside)]
    exact Bool.false_ne_true
  have nothing : post.flatten.filter (fun onset => same onset.time (groupTime g)) = [] := by
    rw [List.filter_eq_nil_iff]
    intro onset inside eq
    have back := same_symm eq
    rw [not_same_of_lt (graded.after inside)] at back
    exact Bool.false_ne_true back
  have all : g.filter (fun onset => same onset.time (groupTime g)) = g :=
    List.filter_eq_self.mpr fun onset inside => graded.same_time mem inside
  rw [List.flatten_append, List.flatten_cons, List.filter_append, List.filter_append, none, nothing, all,
    List.append_nil, List.nil_append]

theorem distinct (graded : Graded gs) : Distinct gs.flatten (gs.map groupTime) := by
  have ascending : (gs.map groupTime).Pairwise fun s t => lt s t = true := by
    rw [List.pairwise_map]
    refine graded.apart.imp_of_mem fun hg hh apart => ?_
    obtain ⟨first, inside, eq⟩ := graded.time_mem hg
    obtain ⟨second, inside', eq'⟩ := graded.time_mem hh
    rw [← eq, ← eq']
    exact apart first inside second inside'
  have apart : (gs.map groupTime).Pairwise fun s t => same s t = false := ascending.imp not_same_of_lt
  have symm : Std.Symm fun s t : α => same s t = false :=
    ⟨fun s t other => Bool.eq_false_iff.mpr fun eq => Bool.eq_false_iff.mp other (same_symm eq)⟩
  refine ⟨ascending, fun t listed => ?_, fun onset inside => ?_⟩
  · obtain ⟨g, mem, rfl⟩ := List.mem_map.mp listed
    obtain ⟨first, inside, eq⟩ := graded.time_mem mem
    exact ⟨first, List.mem_flatten_of_mem mem inside, eq⟩
  · obtain ⟨g, mem, inside⟩ := List.mem_flatten.mp inside
    refine ⟨groupTime g, ⟨List.mem_map_of_mem mem, graded.same_time mem inside⟩, ?_⟩
    rintro t ⟨listed, eq⟩
    by_contra other
    have together := same_trans (same_symm eq) (graded.same_time mem inside)
    rw [apart.forall listed (List.mem_map_of_mem mem) other] at together
    exact Bool.false_ne_true together

theorem eq_map_filter (graded : Graded gs) :
    gs = (gs.map groupTime).map fun t => gs.flatten.filter fun onset => same onset.time t := by
  have each : gs.map (fun g => gs.flatten.filter fun onset => same onset.time (groupTime g)) = gs.map id := by
    refine List.map_congr_left fun g mem => ?_
    obtain ⟨pre, post, rfl⟩ := List.append_of_mem mem
    exact graded.filter_eq
  rw [List.map_map]
  exact (each.trans (List.map_id gs)).symm

end Graded

namespace Renderer

def times (score : Score α) : List α := (groups score).map groupTime

section Times
variable [Ordered α] {score : Score α}

omit [Ordered α] in
theorem groups_flatten : (groups score).flatten = onsets score := timeGroups_flatten _

theorem onsets_comparable : ∀ onset ∈ onsets score, le onset.time onset.time = true := fun _ mem =>
  (mem_schedule mem).elim fun _ belongs => belongs.comparable

theorem groups_graded (score : Score α) : Graded (groups score) :=
  timeGroups_graded (schedule_ascending score.scheduleInput score.duration) onsets_comparable

theorem times_distinct (score : Score α) : Distinct (onsets score) (times score) := by
  have distinct := (groups_graded score).distinct
  rwa [groups_flatten] at distinct

theorem groups_eq : groups score = (times score).map fun t => (onsets score).filter fun onset => same onset.time t := by
  have eq := (groups_graded score).eq_map_filter
  rwa [groups_flatten] at eq

end Times
end Renderer
end FormulaSynth.Audio
