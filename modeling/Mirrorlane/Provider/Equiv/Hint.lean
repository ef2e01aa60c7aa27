import Mirrorlane.Provider.Hint

/-!
# The reviewers of a hint

The reviewers of a projection's hint are the candidates on its topics, whatever their scores are.
-/

namespace Mirrorlane

namespace SkillRoutingHinter

variable {r : Rounding}

/-- The candidates that count for a projection. -/
def candidatesFor (projection : Projection) (ownerships : List TopicOwnership) :
    List ExpertCandidate :=
  (ownerships.filter fun ownership => ownership.topic ∈ projection.topics).flatMap
    TopicOwnership.candidates

/-- The totals are summed over these candidates. -/
theorem foldl_addOwnership (projection : Projection) (ownerships : List TopicOwnership)
    (totals : Totals) :
    ownerships.foldl (addOwnership r projection) totals =
      (candidatesFor projection ownerships).foldl (addCandidate r) totals := by
  unfold candidatesFor
  induction ownerships generalizing totals with
  | nil => rfl
  | cons ownership ownerships ih =>
    rw [List.foldl_cons, ih, addOwnership]
    by_cases htopic : ownership.topic ∈ projection.topics
    · rw [if_pos htopic, List.filter_cons_of_pos (by simpa using htopic), List.flatMap_cons,
        List.foldl_append]
    · rw [if_neg htopic, List.filter_cons_of_neg (by simpa using htopic)]

/-- **The reviewers are the candidates on the topics of the projection.** -/
theorem mem_author_reviewers {projection : Projection} {ownerships : List TopicOwnership}
    {author : AuthorId} :
    author ∈ (hint r projection ownerships).reviewers.map ExpertCandidate.author ↔
      ∃ ownership ∈ ownerships, ownership.topic ∈ projection.topics ∧
        author ∈ ownership.candidates.map ExpertCandidate.author := by
  let totals : Totals := ownerships.foldl (addOwnership r projection) .empty
  have hkeys : author ∈ (hint r projection ownerships).reviewers.map ExpertCandidate.author ↔
      author.val ∈ totals.keys := by
    have hperm := List.perm_insertionSort rankedBefore (totals.entries.map fun entry =>
      (⟨⟨entry.1⟩, entry.2.1, normalize r (largest (totals.entries.map fun entry => entry.2.2))
        entry.2.2⟩ : ExpertCandidate))
    show author ∈ (List.insertionSort rankedBefore _).map ExpertCandidate.author ↔ _
    rw [(hperm.map ExpertCandidate.author).mem_iff, List.map_map, SortedAssoc.keys, List.mem_map,
      List.mem_map]
    refine exists_congr fun entry => and_congr_right fun _ => ?_
    cases author
    exact AuthorId.mk.injEq _ _ ▸ Iff.rfl
  rw [hkeys, SortedAssoc.mem_keys]
  show ((ownerships.foldl (addOwnership r projection) .empty).get author.val).isSome ↔ _
  rw [foldl_addOwnership]
  have hfold : (((candidatesFor projection ownerships).foldl (addCandidate r) .empty).get
      author.val).isSome ↔ (∃ candidate ∈ candidatesFor projection ownerships,
        candidate.author.val = author.val) ∨ ((.empty : Totals).get author.val).isSome :=
    SortedAssoc.isSome_get_foldl_alter _ _ _ _ _
  rw [hfold]
  unfold candidatesFor
  constructor
  · rintro (⟨candidate, hcandidate, hauthor⟩ | hempty)
    · obtain ⟨ownership, hownership, hmem⟩ := List.mem_flatMap.mp hcandidate
      obtain ⟨hgiven, htopic⟩ := List.mem_filter.mp hownership
      rw [AuthorId.val_inj] at hauthor
      exact ⟨ownership, hgiven, of_decide_eq_true htopic,
        List.mem_map.mpr ⟨candidate, hmem, hauthor⟩⟩
    · cases hempty
  · rintro ⟨ownership, hgiven, htopic, hauthor⟩
    obtain ⟨candidate, hmem, rfl⟩ := List.mem_map.mp hauthor
    have hownership : ownership ∈ ownerships.filter fun ownership =>
        ownership.topic ∈ projection.topics := List.mem_filter.mpr ⟨hgiven, by simpa using htopic⟩
    exact Or.inl ⟨candidate, List.mem_flatMap.mpr ⟨ownership, hownership, hmem⟩, rfl⟩

end SkillRoutingHinter

end Mirrorlane
