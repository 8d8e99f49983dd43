import Mathlib
import Jar.Genesis.CheckMerge

/-! The quorum of the merge check: who counts, and for how much. -/

namespace Jar.Genesis

/-- The last well-formed review of an author. -/
def latest (parse : String → Option Verdict) (comments : List Comment) (author : ContributorId) :
    Option Comment :=
  (comments.filter fun c => c.author = author ∧ (parse c.body).isSome).getLast?

/-- The current reviewers. -/
def reviewers (state : List Contributor) : Finset ContributorId :=
  ((state.filter (·.isReviewer)).map (·.id)).toFinset

theorem foldl_eq_sum_filter {α : Type} (p : α → Bool) (f : α → ℕ) (xs : List α) :
    xs.foldl (fun acc x => if p x then acc + f x else acc) 0 = ((xs.filter p).map f).sum := by
  rw [List.sum_eq_foldl, List.foldl_map, List.foldl_filter]

/-! ## Reviews -/

variable {parse : String → Option Verdict}

theorem collectReviews_spec (comments : List Comment) :
    ((collectReviews parse comments).map (·.1.reviewer)).Nodup ∧
    ∀ r ∈ collectReviews parse comments, ∃ c, latest parse comments r.1.reviewer = some c ∧
      parse c.body = some r.1.verdict ∧ c.id = r.2 := by
  -- The comments come in order, so the induction is on their end.
  induction comments using List.reverseRecOn with
  | nil => simp [collectReviews]
  | append_singleton comments c ih =>
    obtain ⟨distinct, last⟩ := ih
    have step : collectReviews parse (comments ++ [c]) =
        addComment parse (collectReviews parse comments) c := by simp [collectReviews]
    rw [step]
    unfold addComment
    cases parsed : parse c.body with
    | none =>
      refine ⟨distinct, fun r member => ?_⟩
      simpa [latest, parsed] using last r member
    | some verdict =>
      constructor
      · rw [List.map_append, List.nodup_append]
        refine ⟨distinct.sublist (List.filter_sublist.map _), by simp, ?_⟩
        simp only [List.mem_map, List.mem_filter]
        rintro _ ⟨r, ⟨-, other⟩, rfl⟩ _ ⟨_, own, rfl⟩
        rw [List.mem_singleton.mp own]
        simpa using other
      · intro r member
        rcases List.mem_append.mp member with old | new
        · obtain ⟨kept, other⟩ := List.mem_filter.mp old
          have other : c.author ≠ r.1.reviewer := fun same => by simp [same] at other
          simpa [latest, other] using last r kept
        · rw [List.mem_singleton.mp new]
          exact ⟨c, by simp [latest, parsed], parsed, rfl⟩

theorem metaReviewNet_filter (metaReviews : List MetaReview) (target : ContributorId)
    (weight : ContributorId → ℕ) :
    metaReviewNet (metaReviews.filter (·.targetReviewer == target)) target weight =
      metaReviewNet metaReviews target weight := by
  unfold metaReviewNet
  rw [List.foldl_filter]
  congr 1
  funext acc mr
  split <;> rfl

theorem filter_metaReviewsOn_of_ne {reviewer target : ContributorId} (other : reviewer ≠ target)
    (reactions : List Reaction) :
    (metaReviewsOn reviewer reactions).filter (·.targetReviewer == target) = [] := by
  simp [metaReviewsOn, List.filter_map, Function.comp_def, other]

/-- Only the reactions to the reviewer's own kept comment count. -/
theorem metaReviewNet_collectMetaReviews (answer : ℕ → Option (List Reaction))
    (weight : ContributorId → ℕ) {reviews : List (EmbeddedReview × ℕ)}
    (distinct : (reviews.map (·.1.reviewer)).Nodup) {r : EmbeddedReview × ℕ}
    (member : r ∈ reviews) :
    metaReviewNet (collectMetaReviews answer reviews) r.1.reviewer weight =
      metaReviewNet (metaReviewsOn r.1.reviewer ((answer r.2).getD [])) r.1.reviewer weight := by
  rw [← metaReviewNet_filter, ← metaReviewNet_filter (metaReviewsOn _ _), collectMetaReviews,
    List.filter_flatMap]
  congr 1
  induction reviews with
  | nil => cases member
  | cons first rest ih =>
    obtain ⟨fresh, distinct⟩ := List.nodup_cons.mp distinct
    rw [List.flatMap_cons]
    rcases List.mem_cons.mp member with rfl | later
    · -- The reviews behind it are by others.
      refine List.append_right_eq_self.mpr (List.flatMap_eq_nil_iff.mpr fun r' inside => ?_)
      exact filter_metaReviewsOn_of_ne (fun same => fresh (List.mem_map.mpr ⟨r', inside, same⟩)) _
    · have other : first.1.reviewer ≠ r.1.reviewer := fun same =>
        fresh (List.mem_map.mpr ⟨r, later, same.symm⟩)
      rw [filter_metaReviewsOn_of_ne other, List.nil_append, ih distinct later]

/-! ## The state -/

variable {state : List Contributor}

/-- Every history keeps one entry for each contributor; who is a reviewer, the founder apart, has
reached the threshold. -/
structure Sound (state : List Contributor) : Prop where
  distinct : (state.map (·.id)).Nodup
  earned : ∀ c ∈ state, c.isReviewer → c.id = founder ∨ reviewerThreshold ≤ c.weight

theorem Sound.upsert (sound : Sound state) {updated : Contributor}
    (earned : updated.isReviewer → updated.id = founder ∨ reviewerThreshold ≤ updated.weight) :
    Sound (upsertContributor state updated) := by
  unfold upsertContributor
  split
  · constructor
    · convert sound.distinct using 1
      rw [List.map_map]
      refine List.map_congr_left fun c _ => ?_
      by_cases same : c.id = updated.id <;> simp [same]
    · intro c member
      obtain ⟨c', member', rfl⟩ := List.mem_map.mp member
      split
      · exact earned
      · exact sound.earned c' member'
  · rename_i absent
    simp only [List.any_eq_true, not_exists, not_and, beq_iff_eq] at absent
    constructor
    · rw [List.map_append, List.nodup_append]
      refine ⟨sound.distinct, by simp, ?_⟩
      rintro _ old _ new rfl
      obtain ⟨c, member, same⟩ := List.mem_map.mp old
      exact absent c member (by simpa using same.trans (List.mem_singleton.mp new))
    · intro c member
      rcases List.mem_append.mp member with old | new
      · exact sound.earned c old
      · rwa [List.mem_singleton.mp new]

theorem Sound.step (sound : Sound state) (idx : CommitIndex) :
    Sound (stepState state idx) := by
  unfold stepState
  split
  · exact sound
  · refine sound.upsert fun reviewer => ?_
    rcases (Bool.or_eq_true _ _).mp reviewer with before | reached
    · -- A reviewer stays one, and its weight only grows.
      cases found : state.find? (·.id == idx.contributor) with
      | none => simp [found] at before
      | some c =>
        rw [found] at before
        rcases sound.earned c (List.mem_of_find?_eq_some found) before with own | earned
        · exact .inl own
        · exact .inr (earned.trans (Nat.le_add_right _ _))
    · exact .inr (of_decide_eq_true reached)

theorem sound_reconstructState (indices : List CommitIndex) : Sound (reconstructState indices) := by
  unfold reconstructState
  refine List.foldlRecOn indices stepState ⟨by simp, ?_⟩ fun _ sound idx _ => sound.step idx
  intro c member _
  rw [List.mem_singleton.mp member]
  exact .inl rfl

theorem reviewerWeight_of_mem (sound : Sound state) {c : Contributor}
    (member : c ∈ state) : reviewerWeight state c.id = if c.isReviewer then c.weight else 0 := by
  unfold reviewerWeight
  cases found : state.find? (·.id == c.id) with
  | none => simpa using List.find?_eq_none.mp found c member
  | some d =>
    have same : d = c := List.inj_on_of_nodup_map sound.distinct
      (List.mem_of_find?_eq_some found) member (by simpa using List.find?_some found)
    rw [same]

theorem reviewerWeight_eq_zero {id : ContributorId}
    (other : id ∉ reviewers state) : reviewerWeight state id = 0 := by
  unfold reviewerWeight
  cases found : state.find? (·.id == id) with
  | none => rfl
  | some c =>
    refine if_neg fun reviewer => other ?_
    have same : c.id = id := by simpa using List.find?_some found
    simp only [reviewers, List.mem_toFinset, List.mem_map, List.mem_filter]
    exact ⟨c, ⟨List.mem_of_find?_eq_some found, reviewer⟩, same⟩

/-- The final weights are the weights of the contributors, in the same order. -/
theorem finalWeights_eq (indices : List CommitIndex) :
    finalWeights indices = (reconstructState indices).map fun c => (c.id, c.weight) := by
  induction indices using List.reverseRecOn with
  | nil => rfl
  | append_singleton indices idx ih =>
    have sound := sound_reconstructState indices
    unfold finalWeights reconstructState at *
    rw [List.foldl_append, List.foldl_append, List.foldl_cons, List.foldl_cons, List.foldl_nil,
      List.foldl_nil, ih]
    generalize indices.foldl stepState _ = state at sound ⊢
    unfold stepState addToWeight
    split
    · rfl
    · rw [List.find?_map]
      cases found : state.find? (·.id == idx.contributor) with
      | none =>
        have fresh := List.find?_eq_none.mp found
        simp only [beq_iff_eq] at fresh
        have absent : state.any (·.id == idx.contributor) = false := by simpa using fresh
        simp [found, upsertContributor, absent]
      | some c =>
        have own : c.id = idx.contributor := by simpa using List.find?_some found
        have present : state.any (·.id == c.id) = true :=
          List.any_eq_true.mpr ⟨c, List.mem_of_find?_eq_some found, by simp⟩
        simp only [Function.comp_def, found, upsertContributor, Option.getD_some, present, if_true,
          List.map_map, Option.map_some]
        refine List.map_congr_left fun c' member => ?_
        by_cases same : c'.id = c.id
        · -- There is one entry for each contributor, so it is the one that was found.
          have same := List.inj_on_of_nodup_map sound.distinct member
            (List.mem_of_find?_eq_some found) same
          simp [same, own]
        · simp [same, ← own]

/-! ## The tally -/

theorem totalWeight_eq (reviews : List EmbeddedReview) (metaReviews : List MetaReview)
    (indices : List CommitIndex) : (checkMerge reviews metaReviews indices).totalWeight =
      ∑ id ∈ reviewers (reconstructState indices), reviewerWeight (reconstructState indices) id := by
  have sound := sound_reconstructState indices
  unfold checkMerge reviewers
  dsimp only
  generalize reconstructState indices = state at sound ⊢
  rw [foldl_eq_sum_filter, List.sum_toFinset _ (sound.distinct.sublist (List.filter_sublist.map _)),
    List.map_map]
  refine congrArg List.sum (List.map_congr_left fun c member => ?_)
  obtain ⟨member, flag⟩ := List.mem_filter.mp member
  exact ((reviewerWeight_of_mem sound member).trans (if_pos flag)).symm

theorem votedWeight_eq (verdict : Verdict) {approved : List EmbeddedReview}
    (distinct : (approved.map (·.reviewer)).Nodup) (weight : ContributorId → ℕ) :
    votedWeight verdict approved weight =
      ∑ id ∈ ((approved.filter (·.verdict == verdict)).map (·.reviewer)).toFinset, weight id := by
  rw [votedWeight, foldl_eq_sum_filter, List.sum_toFinset _
    (distinct.sublist (List.filter_sublist.map _)), List.map_map]
  rfl

variable (parse) in
/-- When the requests for the reactions to the kept comments give what is there, the merge weight is
that of distinct current reviewers whose last well-formed review votes merge and is not rejected on
balance; who is a reviewer, the founder apart, has reached the threshold; and a pull request that is
ready has more than half of the weight of all reviewers. -/
theorem quorum_sound (comments : List Comment) (indices : List CommitIndex)
    (reactions : ℕ → List Reaction) (answer : ℕ → Option (List Reaction))
    (complete : ∀ r ∈ collectReviews parse comments, answer r.2 = some (reactions r.2)) :
    let state := reconstructState indices
    let result := mergeReadiness parse comments answer indices
    ∃ voters ⊆ reviewers state,
      (∀ id ∈ voters, ∃ c, latest parse comments id = some c ∧ parse c.body = some .merge ∧
        0 ≤ metaReviewNet (metaReviewsOn id (reactions c.id)) id (reviewerWeight state)) ∧
      result.mergeWeight = ∑ id ∈ voters, reviewerWeight state id ∧
      (∀ id ∈ reviewers state, id = founder ∨ reviewerThreshold ≤ reviewerWeight state id) ∧
      (result.ready → ∑ id ∈ reviewers state, reviewerWeight state id <
        2 * ∑ id ∈ voters, reviewerWeight state id) := by
  intro state result
  obtain ⟨distinct, last⟩ := @collectReviews_spec parse comments
  let reviews := collectReviews parse comments
  let approved := filterReviews (reviews.map Prod.fst) (collectMetaReviews answer reviews)
    (reviewerWeight state)
  let merging := ((approved.filter (·.verdict == .merge)).map (·.reviewer)).toFinset
  have approvedOnce : (approved.map (·.reviewer)).Nodup := by
    refine List.Nodup.sublist (List.filter_sublist.map _) ?_
    rwa [List.map_map]
  -- Whoever is no reviewer weighs nothing, so leaving them out changes no sum.
  have tally : result.mergeWeight = ∑ id ∈ merging ∩ reviewers state, reviewerWeight state id := by
    rw [Finset.sum_subset Finset.inter_subset_left fun id inside outside =>
      reviewerWeight_eq_zero fun reviewer => outside (Finset.mem_inter.mpr ⟨inside, reviewer⟩)]
    exact votedWeight_eq .merge approvedOnce _
  refine ⟨merging ∩ reviewers state, Finset.inter_subset_right, ?_, tally, ?_, fun ready => ?_⟩
  · intro id inside
    have voted := Finset.mem_of_mem_inter_left inside
    simp only [merging, approved, filterReviews, List.mem_toFinset, List.mem_map, List.mem_filter,
      beq_iff_eq, decide_eq_true_eq] at voted
    obtain ⟨_, ⟨⟨⟨r, kept, rfl⟩, notRejected⟩, merge⟩, rfl⟩ := voted
    obtain ⟨c, isLast, parsed, isKept⟩ := last r kept
    refine ⟨c, isLast, merge ▸ parsed, ?_⟩
    rw [metaReviewNet_collectMetaReviews answer _ distinct kept, complete r kept, ← isKept]
      at notRejected
    exact notRejected
  · intro id reviewer
    have sound := sound_reconstructState indices
    simp only [reviewers, List.mem_toFinset, List.mem_map, List.mem_filter] at reviewer
    obtain ⟨c, ⟨member, flag⟩, rfl⟩ := reviewer
    rw [reviewerWeight_of_mem sound member, if_pos flag]
    exact sound.earned c member flag
  · have more : result.totalWeight < result.mergeWeight * 2 := of_decide_eq_true ready
    rw [tally, mul_comm] at more
    exact (totalWeight_eq _ _ indices) ▸ more

/-- A second reviewer changes their mind and is partly rejected; the request for the reactions to
their first review, which is not made, would fail. -/
theorem quorum_sound_changedMind :
    let state := reconstructState [⟨"alice", 300⟩, ⟨"bob", 20⟩, ⟨"alice", 300⟩]
    ∃ voters ⊆ reviewers state, ∑ id ∈ reviewers state, reviewerWeight state id <
      2 * ∑ id ∈ voters, reviewerWeight state id := by
  let parse : String → Option Verdict := fun body =>
    if body = "merge" then some .merge else if body = "reject" then some .notMerge else none
  let reactions : ℕ → List Reaction := fun id =>
    if id = 5 then [(founder, false), ("alice", true), ("bob", false)] else []
  obtain ⟨voters, current, -, -, -, majority⟩ := quorum_sound parse
    [⟨1, "alice", "reject"⟩, ⟨2, founder, "reject"⟩, ⟨3, "bob", "merge"⟩, ⟨4, "bob", "thanks"⟩,
      ⟨5, "alice", "merge"⟩] [⟨"alice", 300⟩, ⟨"bob", 20⟩, ⟨"alice", 300⟩] reactions
    (fun id => if id = 1 then none else some (reactions id)) (by decide)
  exact ⟨voters, current, majority (by decide)⟩

/-- The request for the reactions fails, and the founder's thumbs-down with it: the check reports
ready, with no review that is not rejected. -/
theorem quorum_sound_fails :
    (mergeReadiness (fun _ => some .merge) [⟨1, founder, "/review"⟩] (fun _ => none) []).ready ∧
    ∀ voters ⊆ reviewers (reconstructState []),
      (∀ id ∈ voters, 0 ≤ metaReviewNet (metaReviewsOn id [(founder, false)]) id
        (reviewerWeight (reconstructState []))) →
      ¬ ∑ id ∈ reviewers (reconstructState []), reviewerWeight (reconstructState []) id <
        2 * ∑ id ∈ voters, reviewerWeight (reconstructState []) id := by
  refine ⟨by decide, fun voters _ unrejected => ?_⟩
  have none : voters = ∅ := Finset.eq_empty_of_forall_notMem fun id inside => by
    have kept := unrejected id inside
    simp [metaReviewNet, metaReviewsOn, reviewerWeight, reconstructState, founderWeight] at kept
  simp [none]

end Jar.Genesis
