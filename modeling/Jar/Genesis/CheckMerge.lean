import Mathlib.Data.Nat.Notation

/-! The merge check of the genesis workflow: the reviews of a pull request, and their tally. -/

namespace Jar.Genesis

/-- The login of an account. -/
abbrev ContributorId := String

/-- What a review votes for. -/
inductive Verdict where
  | merge
  | notMerge
  deriving DecidableEq

/-- A review, without its rankings: the tally does not read them. -/
structure EmbeddedReview where
  reviewer : ContributorId
  verdict : Verdict

/-- A vote on a review: thumbs-up or thumbs-down. -/
structure MetaReview where
  metaReviewer : ContributorId
  targetReviewer : ContributorId
  approve : Bool

/-! ## Collecting -/

/-- A comment on the pull request. -/
structure Comment where
  id : ℕ
  author : ContributorId
  body : String

/-- One comment: a well-formed review replaces the one of its author. `parse` is
`parse_review_comment`; the ids, in the source a second vector, stand beside the reviews. -/
def addComment (parse : String → Option Verdict) (reviews : List (EmbeddedReview × ℕ))
    (comment : Comment) : List (EmbeddedReview × ℕ) :=
  match parse comment.body with
  | some verdict =>
    reviews.filter (·.1.reviewer ≠ comment.author) ++ [(⟨comment.author, verdict⟩, comment.id)]
  | none => reviews

/-- The last well-formed review of each author, with the id of its comment. -/
def collectReviews (parse : String → Option Verdict) (comments : List Comment) :
    List (EmbeddedReview × ℕ) :=
  comments.foldl (addComment parse) []

/-- Who reacted, and whether with a thumbs-up. -/
abbrev Reaction := ContributorId × Bool

/-- The meta-reviews in the reactions to the comment of a reviewer. -/
def metaReviewsOn (targetReviewer : ContributorId) (reactions : List Reaction) : List MetaReview :=
  reactions.map fun x => ⟨x.1, targetReviewer, x.2⟩

/-- The meta-reviews of the kept comments, from the answers to the requests for their reactions. A
request that fails, and an answer that does not parse, counts as no reactions. -/
def collectMetaReviews (answer : ℕ → Option (List Reaction))
    (reviews : List (EmbeddedReview × ℕ)) : List MetaReview :=
  reviews.flatMap fun r => metaReviewsOn r.1.reviewer ((answer r.2).getD [])

/-! ## The state after a history -/

/-- A contributor with what they earned so far. -/
structure Contributor where
  id : ContributorId
  weight : ℕ
  isReviewer : Bool

/-- What one merged pull request added to the weight of its author. -/
structure CommitIndex where
  contributor : ContributorId
  weightDelta : ℕ

def founder : ContributorId := "sorpaas"

def founderWeight : ℕ := 1

/-- The same in every variant of the schedule. -/
def reviewerThreshold : ℕ := 500

/-- Replace the entry of a contributor, or add one at the end. -/
def upsertContributor (cs : List Contributor) (updated : Contributor) : List Contributor :=
  if cs.any (·.id == updated.id) then cs.map fun c => if c.id == updated.id then updated else c
  else cs ++ [updated]

/-- One index: the weight grows, and who reaches the threshold stays a reviewer. -/
def stepState (cs : List Contributor) (idx : CommitIndex) : List Contributor :=
  if idx.weightDelta == 0 then cs
  else
    let c := (cs.find? (·.id == idx.contributor)).getD ⟨idx.contributor, 0, false⟩
    let newWeight := c.weight + idx.weightDelta
    upsertContributor cs ⟨c.id, newWeight, c.isReviewer || reviewerThreshold ≤ newWeight⟩

/-- The contributors after a history, which starts with the founder alone. -/
def reconstructState (indices : List CommitIndex) : List Contributor :=
  indices.foldl stepState [⟨founder, founderWeight, true⟩]

/-- The weight of a vote: that of a reviewer, and nothing for anyone else. -/
def reviewerWeight (cs : List Contributor) (id : ContributorId) : ℕ :=
  match cs.find? (·.id == id) with
  | some c => if c.isReviewer then c.weight else 0
  | none => 0

def addToWeight (acc : List (ContributorId × ℕ)) (id : ContributorId) (amount : ℕ) :
    List (ContributorId × ℕ) :=
  if amount == 0 then acc
  else
    match acc.find? (·.1 == id) with
    | some _ => acc.map fun e => if e.1 == id then (e.1, e.2 + amount) else e
    | none => acc ++ [(id, amount)]

/-- The weights at the end of a history, in a pass of their own. -/
def finalWeights (indices : List CommitIndex) : List (ContributorId × ℕ) :=
  indices.foldl (fun acc idx =>
    if idx.weightDelta == 0 then acc else addToWeight acc idx.contributor idx.weightDelta)
    [(founder, founderWeight)]

/-! ## The tally -/

/-- The weight for a review less the weight against it. -/
def metaReviewNet (metaReviews : List MetaReview) (target : ContributorId)
    (getWeight : ContributorId → ℕ) : Int :=
  metaReviews.foldl (fun acc mr =>
    if mr.targetReviewer == target then
      if mr.approve then acc + getWeight mr.metaReviewer else acc - getWeight mr.metaReviewer
    else acc) 0

/-- The reviews that are not rejected on balance. -/
def filterReviews (reviews : List EmbeddedReview) (metaReviews : List MetaReview)
    (getWeight : ContributorId → ℕ) : List EmbeddedReview :=
  reviews.filter fun r => 0 ≤ metaReviewNet metaReviews r.reviewer getWeight

/-- The outcome of the check. -/
structure MergeReadiness where
  ready : Bool
  mergeWeight : ℕ
  rejectWeight : ℕ
  totalWeight : ℕ

/-- The weight of the reviews with a verdict. -/
def votedWeight (verdict : Verdict) (approved : List EmbeddedReview)
    (getWeight : ContributorId → ℕ) : ℕ :=
  approved.foldl (fun acc r => if r.verdict == verdict then acc + getWeight r.reviewer else acc) 0

/-- Ready means more than half of the weight of all reviewers. -/
def checkMerge (reviews : List EmbeddedReview) (metaReviews : List MetaReview)
    (indices : List CommitIndex) : MergeReadiness :=
  let state := reconstructState indices
  let approved := filterReviews reviews metaReviews (reviewerWeight state)
  let mergeWeight := votedWeight .merge approved (reviewerWeight state)
  let totalWeight := state.foldl (fun acc c => if c.isReviewer then acc + c.weight else acc) 0
  ⟨mergeWeight * 2 > totalWeight, mergeWeight,
    votedWeight .notMerge approved (reviewerWeight state), totalWeight⟩

/-- The check of a pull request, from its comments and the answers to the requests. -/
def mergeReadiness (parse : String → Option Verdict) (comments : List Comment)
    (answer : ℕ → Option (List Reaction)) (indices : List CommitIndex) : MergeReadiness :=
  let reviews := collectReviews parse comments
  checkMerge (reviews.map Prod.fst) (collectMetaReviews answer reviews) indices

end Jar.Genesis
