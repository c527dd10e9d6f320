import FrescoDB.Master.Placement
import FrescoDB.Lib.AssocList

/-! What `HandlePlacementUsingPlacementInfo` gives. Whatever the random draws, a config it returns
has its peers on distinct live servers, each in the cloud info of some block. It checks a block's
minimum only against the servers of its placement id, and only for ids some server has: a block
no live server matches is dropped, and its minimum is never met. A block whose minimum is not
positive asks for `FLAGS_replication_factor` servers of its own, so a placement
`CheckValidPlacementInfo` accepts may be refused, or given more peers than it asks for. -/
namespace FrescoDB.Master

open FrescoDB.Lib

section Select

variable {rng : Nat → Nat}

theorem selectReplica_mem {draw : Nat} {tsDescs excluded : List TSDescriptor} {ts : TSDescriptor}
    (h : selectReplica draw tsDescs excluded = some ts) : ts ∈ tsDescs ∧ ts ∉ excluded := by
  have hmem := List.mem_of_getElem? h
  simpa using hmem

theorem selectReplicas_spec {tsDescs : List TSDescriptor} :
    ∀ {nreplicas : Nat} {selected selected' : List TSDescriptor},
      selectReplicas rng tsDescs nreplicas selected = some selected' → selected.Nodup →
        ∃ added, selected' = selected ++ added ∧ added.length = nreplicas ∧
          (∀ ts ∈ added, ts ∈ tsDescs) ∧ selected'.Nodup
  | 0, selected, selected', h, hnodup => by
    cases h
    exact ⟨[], by simp, rfl, by simp, hnodup⟩
  | nreplicas + 1, selected, selected', h, hnodup => by
    simp only [selectReplicas] at h
    split at h
    · cases h
    · rename_i ts hts
      obtain ⟨hin, hfresh⟩ := selectReplica_mem hts
      have hnodup' : (selected ++ [ts]).Nodup := by
        refine List.nodup_append.mpr ⟨hnodup, List.nodup_singleton ts, ?_⟩
        intro a ha b hb hab
        simp only [List.mem_singleton] at hb
        subst hb hab
        exact hfresh ha
      obtain ⟨added, rfl, hlen, hadded, hnodup''⟩ := selectReplicas_spec h hnodup'
      refine ⟨ts :: added, by simp, by simp [hlen], ?_, hnodup''⟩
      intro s hs
      rcases List.mem_cons.mp hs with rfl | hs
      · exact hin
      · exact hadded s hs

/-- The number of servers the loop over the placement ids asks of a block: its minimum, or
`FLAGS_replication_factor` when that is not positive. -/
def effectiveMinimum (flags : PlacementFlags) (pb : PlacementBlockPB) : Int :=
  if pb.minNumReplicas > 0 then pb.minNumReplicas else flags.replicationFactor

variable {flags : PlacementFlags} {pbById : List (String × PlacementBlockPB)}

theorem selectInPlacements_cons_of_lt {placementId : String} {available : List TSDescriptor}
    {entries : List (String × List TSDescriptor)} {selected : List TSDescriptor}
    (hlt : (available.length : Int) < effectiveMinimum flags ((pbById.lookup placementId).getD {})) :
    ∃ status, selectInPlacements flags rng pbById ((placementId, available) :: entries) selected =
      some (.error status) := by
  unfold effectiveMinimum at hlt
  simp only [selectInPlacements, if_pos hlt]
  exact ⟨_, rfl⟩

theorem selectInPlacements_cons_ok {placementId : String} {available : List TSDescriptor}
    {entries : List (String × List TSDescriptor)} {selected selected' : List TSDescriptor}
    (h : selectInPlacements flags rng pbById ((placementId, available) :: entries) selected =
      some (.ok selected')) :
    ∃ chosen, selectReplicas rng available
        (effectiveMinimum flags ((pbById.lookup placementId).getD {})).toNat selected = some chosen ∧
      selectInPlacements flags rng pbById entries chosen = some (.ok selected') := by
  by_cases hlt : (available.length : Int) < effectiveMinimum flags ((pbById.lookup placementId).getD {})
  · obtain ⟨status, herr⟩ : ∃ status, selectInPlacements flags rng pbById
        ((placementId, available) :: entries) selected = some (.error status) :=
      selectInPlacements_cons_of_lt hlt
    rw [herr] at h
    cases h
  · unfold effectiveMinimum at hlt ⊢
    simp only [selectInPlacements, if_neg hlt] at h
    split at h
    · cases h
    · rename_i chosen hchosen
      exact ⟨chosen, hchosen, h⟩

theorem selectInPlacements_spec :
    ∀ {entries : List (String × List TSDescriptor)} {selected selected' : List TSDescriptor},
      selectInPlacements flags rng pbById entries selected = some (.ok selected') →
        selected.Nodup →
          selected'.Nodup ∧ ∀ ts ∈ selected', ts ∈ selected ∨ ∃ e ∈ entries, ts ∈ e.2
  | [], selected, selected', h, hnodup => by
    cases h
    exact ⟨hnodup, fun ts hts => .inl hts⟩
  | (placementId, available) :: entries, selected, selected', h, hnodup => by
    obtain ⟨chosen, hchosen, hrest⟩ := selectInPlacements_cons_ok h
    obtain ⟨added, rfl, -, hadded, hnodup'⟩ := selectReplicas_spec hchosen hnodup
    obtain ⟨hnodup'', hfrom⟩ := selectInPlacements_spec hrest hnodup'
    refine ⟨hnodup'', fun ts hts => ?_⟩
    rcases hfrom ts hts with hts | ⟨e, he, hts⟩
    · rcases List.mem_append.mp hts with hts | hts
      · exact .inl hts
      · exact .inr ⟨(placementId, available), List.mem_cons_self .., hadded ts hts⟩
    · exact .inr ⟨e, List.mem_cons_of_mem _ he, hts⟩

end Select

section Allowed

/-- A server a placement may use: a live one, in the cloud info of some block of `pb_by_id`. -/
def Allowed (pbById : List (String × PlacementBlockPB)) (tsDescs : List TSDescriptor)
    (ts : TSDescriptor) : Prop :=
  ts ∈ tsDescs ∧ ∃ e ∈ pbById, ts.matchesCloudInfo (e.2.cloudInfo.getD {}) = true

theorem mem_assignBlock {pbById : List (String × PlacementBlockPB)} {placementId : String}
    {pb : PlacementBlockPB} {e : String × PlacementBlockPB}
    (he : e ∈ assignBlock pbById placementId pb) : e ∈ pbById ∨ e = (placementId, pb) := by
  unfold assignBlock at he
  split_ifs at he
  · obtain ⟨e', he', rfl⟩ := List.mem_map.mp he
    split_ifs
    · exact .inr rfl
    · exact .inl he'
  · rcases List.mem_append.mp he with he | he
    · exact .inl he
    · exact .inr (List.mem_singleton.mp he)

theorem mem_pbByIdOf {blocks : List PlacementBlockPB} {e : String × PlacementBlockPB}
    (he : e ∈ pbByIdOf blocks) :
    e.2 ∈ blocks ∧ e.1 = generatePlacementId (e.2.cloudInfo.getD {}) := by
  have hstep : ∀ (bs : List PlacementBlockPB) (acc : List (String × PlacementBlockPB)),
      (∀ e ∈ acc, e.2 ∈ blocks ∧ e.1 = generatePlacementId (e.2.cloudInfo.getD {})) →
      (∀ pb ∈ bs, pb ∈ blocks) →
      ∀ e ∈ bs.foldl (fun pbById pb =>
          assignBlock pbById (generatePlacementId (pb.cloudInfo.getD {})) pb) acc,
        e.2 ∈ blocks ∧ e.1 = generatePlacementId (e.2.cloudInfo.getD {}) := by
    intro bs
    induction bs with
    | nil => exact fun acc hacc _ => hacc
    | cons pb bs ih =>
      intro acc hacc hbs
      apply ih _ _ fun pb' hpb' => hbs pb' (List.mem_cons_of_mem _ hpb')
      intro e he
      rcases mem_assignBlock he with he | rfl
      · exact hacc e he
      · exact ⟨hbs pb (List.mem_cons_self ..), rfl⟩
  exact hstep blocks [] (by simp) (fun _ h => h) e he

theorem key_mem_pushAllowed {allowedTsByPi : List (String × List TSDescriptor)}
    {placementId : String} {ts : TSDescriptor} {e : String × List TSDescriptor}
    (he : e ∈ pushAllowed allowedTsByPi placementId ts) :
    e.1 ∈ allowedTsByPi.map Prod.fst ∨ e.1 = placementId := by
  unfold pushAllowed at he
  split_ifs at he
  · obtain ⟨e', he', rfl⟩ := List.mem_map.mp he
    split_ifs
    · exact .inr rfl
    · exact .inl (List.mem_map_of_mem he')
  · rcases List.mem_append.mp he with he | he
    · exact .inl (List.mem_map_of_mem he)
    · exact .inr (by rw [List.mem_singleton.mp he])

theorem mem_pushAllowed {allowedTsByPi : List (String × List TSDescriptor)} {placementId : String}
    {ts s : TSDescriptor} {e : String × List TSDescriptor}
    (he : e ∈ pushAllowed allowedTsByPi placementId ts) (hs : s ∈ e.2) :
    (∃ e' ∈ allowedTsByPi, s ∈ e'.2) ∨ s = ts := by
  unfold pushAllowed at he
  split_ifs at he
  · obtain ⟨e', he', rfl⟩ := List.mem_map.mp he
    split_ifs at hs
    · rcases List.mem_append.mp hs with hs | hs
      · exact .inl ⟨e', he', hs⟩
      · exact .inr (List.mem_singleton.mp hs)
    · exact .inl ⟨e', he', hs⟩
  · rcases List.mem_append.mp he with he | he
    · exact .inl ⟨e, he, hs⟩
    · obtain rfl := List.mem_singleton.mp he
      exact .inr (List.mem_singleton.mp hs)

variable {pbById : List (String × PlacementBlockPB)} {tsDescs : List TSDescriptor}

/-- What an entry of `allowed_ts_by_pi` holds: servers the placement may use, under a placement id
of `pb_by_id`. -/
def AllowedEntry (pbById : List (String × PlacementBlockPB)) (tsDescs : List TSDescriptor)
    (e : String × List TSDescriptor) : Prop :=
  e.1 ∈ pbById.map Prod.fst ∧ ∀ s ∈ e.2, Allowed pbById tsDescs s

theorem allowedEntry_foldl_push {ts : TSDescriptor} (hts : ts ∈ tsDescs) :
    ∀ (matching : List (String × PlacementBlockPB)),
      (∀ e ∈ matching, e ∈ pbById ∧ ts.matchesCloudInfo (e.2.cloudInfo.getD {}) = true) →
      ∀ (allowedTsByPi : List (String × List TSDescriptor)),
        (∀ e ∈ allowedTsByPi, AllowedEntry pbById tsDescs e) →
        ∀ e ∈ matching.foldl (fun allowedTsByPi e => pushAllowed allowedTsByPi e.1 ts) allowedTsByPi,
          AllowedEntry pbById tsDescs e
  | [], _, _, hacc => hacc
  | m :: matching, hmatching, allowedTsByPi, hacc => by
    obtain ⟨hm, hmatch⟩ := hmatching m (List.mem_cons_self ..)
    apply allowedEntry_foldl_push hts matching fun e he => hmatching e (List.mem_cons_of_mem _ he)
    intro e he
    refine ⟨?_, fun s hs => ?_⟩
    · rcases key_mem_pushAllowed he with hkey | hkey
      · obtain ⟨e', he', hkey'⟩ := List.mem_map.mp hkey
        exact hkey' ▸ (hacc e' he').1
      · exact hkey ▸ List.mem_map_of_mem hm
    · rcases mem_pushAllowed he hs with ⟨e', he', hs'⟩ | rfl
      · exact (hacc e' he').2 s hs'
      · exact ⟨hts, m, hm, hmatch⟩

/-- The sets of allowed servers hold only servers the placement may use, under the placement ids
of `pb_by_id`. -/
theorem allowedTs_spec :
    (∀ e ∈ (allowedTs pbById tsDescs).1, AllowedEntry pbById tsDescs e) ∧
      ∀ s ∈ (allowedTs pbById tsDescs).2, Allowed pbById tsDescs s := by
  unfold allowedTs
  -- the invariant of the loop over the servers
  apply List.foldlRecOn (motive := fun (sets : List (String × List TSDescriptor) × List TSDescriptor) =>
    (∀ e ∈ sets.1, AllowedEntry pbById tsDescs e) ∧ ∀ s ∈ sets.2, Allowed pbById tsDescs s)
  · exact ⟨by simp, by simp⟩
  · rintro ⟨allowedTsByPi, allAllowedTs⟩ hsets ts hts
    have hmatching : ∀ e ∈ pbById.filter fun e => ts.matchesCloudInfo (e.2.cloudInfo.getD {}),
        e ∈ pbById ∧ ts.matchesCloudInfo (e.2.cloudInfo.getD {}) = true := by
      intro e he
      simpa using (List.mem_filter.mp he)
    refine ⟨allowedEntry_foldl_push hts _ hmatching allowedTsByPi hsets.1, fun s hs => ?_⟩
    simp only at hs
    split_ifs at hs with hempty
    · exact hsets.2 s hs
    · rcases List.mem_append.mp hs with hs | hs
      · exact hsets.2 s hs
      · obtain rfl := List.mem_singleton.mp hs
        -- some block matches the server, since it was added
        obtain ⟨k, pb, hmem, hmatch⟩ : ∃ k pb, (k, pb) ∈ pbById ∧
            s.matchesCloudInfo (pb.cloudInfo.getD {}) = true := by
          simpa using hempty
        exact ⟨hts, (k, pb), hmem, hmatch⟩

end Allowed

section Handle

variable {flags : PlacementFlags} {rng : Nat → Nat}

/-- How `HandlePlacementUsingPlacementInfo` comes to return a config: without blocks, from all
servers; with blocks, from the loop over the placement ids, then, when replicas are left, from
all allowed servers. -/
theorem handlePlacement_ok_cases {placementInfo : PlacementInfoPB}
    {tsDescs peers : List TSDescriptor}
    (h : handlePlacementUsingPlacementInfo flags rng placementInfo tsDescs = some (.ok peers)) :
    (placementInfo.placementBlocks = [] ∧
      selectReplicas rng tsDescs (getNumReplicasFromPlacementInfo flags placementInfo).toNat [] =
        some peers) ∨
    (placementInfo.placementBlocks ≠ [] ∧ ∃ selected,
      selectInPlacements flags rng (pbByIdOf placementInfo.placementBlocks)
          (allowedTs (pbByIdOf placementInfo.placementBlocks) tsDescs).1 [] = some (.ok selected) ∧
        (peers = selected ∨
          selectReplicas rng (allowedTs (pbByIdOf placementInfo.placementBlocks) tsDescs).2
            (getNumReplicasFromPlacementInfo flags placementInfo - selected.length).toNat selected =
              some peers)) := by
  unfold handlePlacementUsingPlacementInfo at h
  dsimp only at h
  by_cases hfew : (tsDescs.length : Int) < getNumReplicasFromPlacementInfo flags placementInfo
  · rw [if_pos hfew] at h
    cases h
  rw [if_neg hfew] at h
  by_cases hempty : placementInfo.placementBlocks.isEmpty
  · rw [if_pos hempty] at h
    obtain ⟨chosen, hchosen, hok⟩ := Option.map_eq_some_iff.mp h
    cases hok
    exact .inl ⟨List.isEmpty_iff.mp hempty, hchosen⟩
  · rw [if_neg hempty] at h
    refine .inr ⟨fun hnil => hempty (List.isEmpty_iff.mpr hnil), ?_⟩
    generalize allowedTs (pbByIdOf placementInfo.placementBlocks) tsDescs = sets at h ⊢
    obtain ⟨allowedTsByPi, allAllowedTs⟩ := sets
    simp only at h ⊢
    by_cases hfewAllowed :
        (allAllowedTs.length : Int) < getNumReplicasFromPlacementInfo flags placementInfo
    · rw [if_pos hfewAllowed] at h
      cases h
    rw [if_neg hfewAllowed] at h
    split at h
    · rename_i selected hloop
      refine ⟨selected, hloop, ?_⟩
      split_ifs at h
      · obtain ⟨chosen, hchosen, hok⟩ := Option.map_eq_some_iff.mp h
        cases hok
        exact .inr hchosen
      · cases h
        exact .inl rfl
    · rename_i result hnotOk
      exact absurd h (hnotOk peers)

/-- A config `HandlePlacementUsingPlacementInfo` returns has its peers on distinct live servers,
each, when the placement has blocks, in the cloud info of one of them. -/
theorem handlePlacement_ok {placementInfo : PlacementInfoPB} {tsDescs peers : List TSDescriptor}
    (h : handlePlacementUsingPlacementInfo flags rng placementInfo tsDescs = some (.ok peers)) :
    peers.Nodup ∧ ∀ ts ∈ peers, ts ∈ tsDescs ∧ (placementInfo.placementBlocks ≠ [] →
      ∃ pb ∈ placementInfo.placementBlocks, ts.matchesCloudInfo (pb.cloudInfo.getD {}) = true) := by
  rcases handlePlacement_ok_cases h with ⟨hnil, hchosen⟩ | ⟨-, selected, hloop, hpeers⟩
  · -- without blocks, the replicas are chosen among all servers
    obtain ⟨added, rfl, -, hadded, hnodup⟩ := selectReplicas_spec hchosen List.nodup_nil
    exact ⟨hnodup, fun ts hts => ⟨hadded ts (by simpa using hts), fun hne => absurd hnil hne⟩⟩
  · -- with blocks, every server chosen is one some block allows
    have hallowed : ∀ ts, Allowed (pbByIdOf placementInfo.placementBlocks) tsDescs ts →
        ts ∈ tsDescs ∧ (placementInfo.placementBlocks ≠ [] →
          ∃ pb ∈ placementInfo.placementBlocks, ts.matchesCloudInfo (pb.cloudInfo.getD {}) = true) := by
      rintro ts ⟨hts, e, he, hmatch⟩
      exact ⟨hts, fun _ => ⟨e.2, (mem_pbByIdOf he).1, hmatch⟩⟩
    obtain ⟨hentries, hall⟩ :
        (∀ e ∈ (allowedTs (pbByIdOf placementInfo.placementBlocks) tsDescs).1,
          AllowedEntry (pbByIdOf placementInfo.placementBlocks) tsDescs e) ∧
        ∀ s ∈ (allowedTs (pbByIdOf placementInfo.placementBlocks) tsDescs).2,
          Allowed (pbByIdOf placementInfo.placementBlocks) tsDescs s := allowedTs_spec
    obtain ⟨hnodup, hfrom⟩ := selectInPlacements_spec hloop List.nodup_nil
    have hselected : ∀ ts ∈ selected, Allowed (pbByIdOf placementInfo.placementBlocks) tsDescs ts := by
      intro ts hts
      rcases hfrom ts hts with hnil | ⟨e, he, hts'⟩
      · cases hnil
      · exact (hentries e he).2 ts hts'
    rcases hpeers with rfl | hleft
    · exact ⟨hnodup, fun ts hts => hallowed ts (hselected ts hts)⟩
    · -- the replicas left are chosen among all allowed servers
      obtain ⟨added, rfl, -, hadded, hnodup'⟩ := selectReplicas_spec hleft hnodup
      refine ⟨hnodup', fun ts hts => hallowed ts ?_⟩
      rcases List.mem_append.mp hts with hts | hts
      · exact hselected ts hts
      · exact hall ts (hadded ts hts)

theorem selectInPlacements_ne_ok_of_short {pbById : List (String × PlacementBlockPB)}
    {placementId : String} {available : List TSDescriptor}
    (hshort : (available.length : Int) < effectiveMinimum flags ((pbById.lookup placementId).getD {})) :
    ∀ {entries : List (String × List TSDescriptor)}, (placementId, available) ∈ entries →
      ∀ (selected peers : List TSDescriptor),
        selectInPlacements flags rng pbById entries selected ≠ some (.ok peers)
  | [], hmem, _, _ => by cases hmem
  | e :: entries, hmem, selected, peers => by
    intro h
    rcases List.mem_cons.mp hmem with rfl | htail
    · obtain ⟨status, herr⟩ : ∃ status, selectInPlacements flags rng pbById
          ((placementId, available) :: entries) selected = some (.error status) :=
        selectInPlacements_cons_of_lt hshort
      rw [herr] at h
      cases h
    · obtain ⟨placementId', available'⟩ := e
      obtain ⟨chosen, -, hrest⟩ := selectInPlacements_cons_ok h
      exact selectInPlacements_ne_ok_of_short hshort htail chosen peers hrest

/-- A placement id some server has, with fewer servers than its block asks for, keeps
`HandlePlacementUsingPlacementInfo` from returning a config. A block whose minimum is not
positive asks for `FLAGS_replication_factor` servers. -/
theorem handlePlacement_ne_ok_of_short {placementInfo : PlacementInfoPB}
    {tsDescs : List TSDescriptor} {placementId : String} {available : List TSDescriptor}
    (hmem : (placementId, available) ∈
      (allowedTs (pbByIdOf placementInfo.placementBlocks) tsDescs).1)
    (hshort : (available.length : Int) < effectiveMinimum flags
      (((pbByIdOf placementInfo.placementBlocks).lookup placementId).getD {}))
    (peers : List TSDescriptor) :
    handlePlacementUsingPlacementInfo flags rng placementInfo tsDescs ≠ some (.ok peers) := by
  intro h
  rcases handlePlacement_ok_cases h with ⟨hnil, -⟩ | ⟨-, selected, hloop, -⟩
  · -- an allowed placement id is the id of a block
    have hkey := ((allowedTs_spec).1 _ hmem).1
    simp [hnil, pbByIdOf] at hkey
  · exact selectInPlacements_ne_ok_of_short hshort hmem [] selected hloop

theorem pbByIdOf_append {blocks : List PlacementBlockPB} {b : PlacementBlockPB}
    (hnone : (pbByIdOf blocks).lookup (generatePlacementId (b.cloudInfo.getD {})) = none) :
    pbByIdOf (blocks ++ [b]) =
      pbByIdOf blocks ++ [(generatePlacementId (b.cloudInfo.getD {}), b)] := by
  simp only [pbByIdOf, List.foldl_append, List.foldl_cons, List.foldl_nil]
  rw [assignBlock, ← pbByIdOf, hnone]
  rfl

theorem allowedTs_append_unmatched {pbById : List (String × PlacementBlockPB)}
    {tsDescs : List TSDescriptor} {placementId : String} {b : PlacementBlockPB}
    (hunmatched : ∀ ts ∈ tsDescs, ts.matchesCloudInfo (b.cloudInfo.getD {}) = false) :
    allowedTs (pbById ++ [(placementId, b)]) tsDescs = allowedTs pbById tsDescs := by
  unfold allowedTs
  apply List.foldl_ext
  intro sets ts hts
  have hfilter : (pbById ++ [(placementId, b)]).filter
      (fun e => ts.matchesCloudInfo (e.2.cloudInfo.getD {})) =
      pbById.filter fun e => ts.matchesCloudInfo (e.2.cloudInfo.getD {}) := by
    rw [List.filter_append]
    simp [hunmatched ts hts]
  simp only [hfilter]

theorem selectInPlacements_append {pbById : List (String × PlacementBlockPB)}
    {placementId : String} {b : PlacementBlockPB} (hnone : pbById.lookup placementId = none) :
    ∀ {entries : List (String × List TSDescriptor)}, (∀ e ∈ entries, e.1 ≠ placementId) →
      ∀ (selected : List TSDescriptor),
        selectInPlacements flags rng (pbById ++ [(placementId, b)]) entries selected =
          selectInPlacements flags rng pbById entries selected
  | [], _, _ => rfl
  | (placementId', available) :: entries, hkeys, selected => by
    have hne : placementId' ≠ placementId := hkeys _ (List.mem_cons_self ..)
    have hrest := @selectInPlacements_append pbById placementId b hnone entries
      fun e he => hkeys e (List.mem_cons_of_mem _ he)
    simp only [selectInPlacements, lookup_append_singleton hnone, if_neg hne, hrest]

/-- A block no live server matches, under a placement id of its own, changes nothing: its
minimum is not checked, and no replica need go to it. -/
theorem handlePlacement_append_unmatched {placementInfo : PlacementInfoPB} {b : PlacementBlockPB}
    {tsDescs : List TSDescriptor} (hblocks : placementInfo.placementBlocks ≠ [])
    (hid : ∀ pb ∈ placementInfo.placementBlocks,
      generatePlacementId (pb.cloudInfo.getD {}) ≠ generatePlacementId (b.cloudInfo.getD {}))
    (hunmatched : ∀ ts ∈ tsDescs, ts.matchesCloudInfo (b.cloudInfo.getD {}) = false) :
    handlePlacementUsingPlacementInfo flags rng
        { placementInfo with placementBlocks := placementInfo.placementBlocks ++ [b] } tsDescs =
      handlePlacementUsingPlacementInfo flags rng placementInfo tsDescs := by
  -- the block's id is new to pb_by_id, and so to every set of allowed servers
  have hnone : (pbByIdOf placementInfo.placementBlocks).lookup
      (generatePlacementId (b.cloudInfo.getD {})) = none := by
    apply lookup_eq_none_iff_not_mem.mpr
    intro hkey
    obtain ⟨e, he, hek⟩ := List.mem_map.mp hkey
    obtain ⟨hpb, hid'⟩ := mem_pbByIdOf he
    exact hid e.2 hpb (hid' ▸ hek)
  have hkeys : ∀ e ∈ (allowedTs (pbByIdOf placementInfo.placementBlocks) tsDescs).1,
      e.1 ≠ generatePlacementId (b.cloudInfo.getD {}) := by
    intro e he hek
    exact lookup_eq_none_iff_not_mem.mp hnone (hek ▸ (allowedTs_spec.1 e he).1)
  have hempty : placementInfo.placementBlocks.isEmpty = false := by
    simpa using hblocks
  have hempty' : (placementInfo.placementBlocks ++ [b]).isEmpty = false := by simp
  unfold handlePlacementUsingPlacementInfo getNumReplicasFromPlacementInfo
  simp only [hempty, hempty', Bool.false_eq_true, if_false, pbByIdOf_append hnone,
    allowedTs_append_unmatched hunmatched]
  generalize allowedTs (pbByIdOf placementInfo.placementBlocks) tsDescs = sets at hkeys ⊢
  obtain ⟨allowedTsByPi, allAllowedTs⟩ := sets
  simp only [selectInPlacements_append hnone hkeys]

end Handle

/-! ### The placement against its blocks -/

theorem placement_replicas_against_blocks :
    -- a config returned has its peers on distinct live servers, each in some block
    (∀ (flags : PlacementFlags) (rng : Nat → Nat) (placementInfo : PlacementInfoPB)
        (tsDescs peers : List TSDescriptor),
      handlePlacementUsingPlacementInfo flags rng placementInfo tsDescs = some (.ok peers) →
        peers.Nodup ∧ ∀ ts ∈ peers, ts ∈ tsDescs ∧ (placementInfo.placementBlocks ≠ [] →
          ∃ pb ∈ placementInfo.placementBlocks,
            ts.matchesCloudInfo (pb.cloudInfo.getD {}) = true)) ∧
    -- a block no live server matches changes nothing, its minimum included
    (∀ (flags : PlacementFlags) (rng : Nat → Nat) (placementInfo : PlacementInfoPB)
        (b : PlacementBlockPB) (tsDescs : List TSDescriptor),
      placementInfo.placementBlocks ≠ [] →
      (∀ pb ∈ placementInfo.placementBlocks,
        generatePlacementId (pb.cloudInfo.getD {}) ≠ generatePlacementId (b.cloudInfo.getD {})) →
      (∀ ts ∈ tsDescs, ts.matchesCloudInfo (b.cloudInfo.getD {}) = false) →
      handlePlacementUsingPlacementInfo flags rng
          { placementInfo with placementBlocks := placementInfo.placementBlocks ++ [b] } tsDescs =
        handlePlacementUsingPlacementInfo flags rng placementInfo tsDescs) ∧
    -- a placement id with fewer servers than its block asks for, FLAGS_replication_factor for a
    -- minimum that is not positive, gets no config
    (∀ (flags : PlacementFlags) (rng : Nat → Nat) (placementInfo : PlacementInfoPB)
        (tsDescs : List TSDescriptor) (placementId : String) (available : List TSDescriptor),
      (placementId, available) ∈ (allowedTs (pbByIdOf placementInfo.placementBlocks) tsDescs).1 →
      (available.length : Int) < effectiveMinimum flags
        (((pbByIdOf placementInfo.placementBlocks).lookup placementId).getD {}) →
      ∀ peers, handlePlacementUsingPlacementInfo flags rng placementInfo tsDescs ≠
        some (.ok peers)) := by
  refine ⟨?ok, ?unmatched, ?short⟩
  case ok =>
    intro flags rng placementInfo tsDescs peers h
    exact handlePlacement_ok h
  case unmatched =>
    intro flags rng placementInfo b tsDescs hblocks hid hunmatched
    exact handlePlacement_append_unmatched hblocks hid hunmatched
  case short =>
    intro flags rng placementInfo tsDescs placementId available hmem hshort peers
    exact handlePlacement_ne_ok_of_short hmem hshort peers

/-- Zone `a` of one region. -/
def cloudZoneA : CloudInfoPB :=
  { placementCloud := "aws", placementRegion := "us-west", placementZone := "a" }

/-- Zone `b` of the same region. -/
def cloudZoneB : CloudInfoPB :=
  { placementCloud := "aws", placementRegion := "us-west", placementZone := "b" }

def serverA1 : TSDescriptor := ⟨"a1", cloudZoneA⟩
def serverA2 : TSDescriptor := ⟨"a2", cloudZoneA⟩
def serverA3 : TSDescriptor := ⟨"a3", cloudZoneA⟩
def serverB1 : TSDescriptor := ⟨"b1", cloudZoneB⟩
def serverB2 : TSDescriptor := ⟨"b2", cloudZoneB⟩

/-- Two replicas, at least one in zone `b`. -/
def zoneBOnly : PlacementInfoPB :=
  { numReplicas := 2, placementBlocks := [{ cloudInfo := some cloudZoneB, minNumReplicas := 1 }] }

/-- At least one replica in zone `a`. -/
def blockZoneA : PlacementBlockPB := { cloudInfo := some cloudZoneA, minNumReplicas := 1 }

/-- Two replicas, at least one in zone `b` and one in zone `a`. -/
def zoneBThenA : PlacementInfoPB :=
  { zoneBOnly with placementBlocks := zoneBOnly.placementBlocks ++ [blockZoneA] }

/-- Three replicas, at least three in zone `a`, and zone `b` allowed with no minimum set. -/
def zoneAWithUnsetB : PlacementInfoPB :=
  { numReplicas := 3, placementBlocks := [{ cloudInfo := some cloudZoneA, minNumReplicas := 3 },
      { cloudInfo := some cloudZoneB }] }

/-- `CheckValidPlacementInfo` accepts both placements. With the two servers of zone `b` live,
the first gets both replicas in zone `b` and none in zone `a`. With three servers in zone `a` and
one in zone `b`, enough for every minimum and for the three replicas, the second gets no
config: zone `b` is asked for `FLAGS_replication_factor` servers. -/
theorem placement_block_minimum_unmet :
    checkValidPlacementInfo {} zoneBThenA 2 1 = .ok () ∧
      handlePlacementUsingPlacementInfo {} (fun _ => 0) zoneBThenA [serverB1, serverB2] =
        some (.ok [serverB1, serverB2]) ∧
      ([serverB1, serverB2].all fun ts => !ts.matchesCloudInfo cloudZoneA) = true ∧
      checkValidPlacementInfo {} zoneAWithUnsetB 4 1 = .ok () ∧
      ([serverA1, serverA2, serverA3, serverB1].filter fun ts => ts.matchesCloudInfo cloudZoneA).length = 3 ∧
      ([serverA1, serverA2, serverA3, serverB1].filter fun ts => ts.matchesCloudInfo cloudZoneB).length = 1 ∧
      (handlePlacementUsingPlacementInfo {} (fun _ => 0) zoneAWithUnsetB
        [serverA1, serverA2, serverA3, serverB1]).map Except.toBool ≠ some true := by
  obtain ⟨-, hunmatched, hshort⟩ := placement_replicas_against_blocks
  -- zone a has no live server: the placement is that of zone b alone
  have hdrop := hunmatched {} (fun _ => 0) zoneBOnly blockZoneA [serverB1, serverB2] (by decide)
    (by decide) (by decide)
  have hzoneB : handlePlacementUsingPlacementInfo {} (fun _ => 0) zoneBOnly [serverB1, serverB2] =
      some (.ok [serverB1, serverB2]) := by decide
  -- zone b is allowed one server and asked for three
  have hnone := hshort {} (fun _ => 0) zoneAWithUnsetB [serverA1, serverA2, serverA3, serverB1]
    (generatePlacementId cloudZoneB) [serverB1] (by decide) (by decide)
  refine ⟨by decide, hdrop.trans hzoneB, by decide, by decide, by decide, by decide, ?_⟩
  cases hres : handlePlacementUsingPlacementInfo {} (fun _ => 0) zoneAWithUnsetB
      [serverA1, serverA2, serverA3, serverB1] with
  | none => simp
  | some result =>
    cases result with
    | error status => simp [Except.toBool]
    | ok peers => exact absurd hres (hnone peers)

end FrescoDB.Master
