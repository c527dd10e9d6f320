import FrescoDB.Util.Status

/-! Where the master puts the replicas of a new tablet (`master/catalog_manager.cc`):
`GetNumReplicasFromPlacementInfo`, `CheckValidPlacementInfo`, which the placement of a table
passes when the table is created, and `HandlePlacementUsingPlacementInfo`, which chooses the
tablet servers of a tablet's Raft config. With placement blocks, each placement id is given the
minimum of its block from the servers in its cloud, region and zone, and the replicas left are
chosen among all servers some block allows. `SelectReplica` samples two servers not chosen yet
and keeps the less loaded; here a random draw names the server it keeps. The maps keyed by
placement id iterate in the order their keys were first inserted. -/
namespace FrescoDB.Master

open FrescoDB.Util

/-- `CloudInfoPB`. -/
structure CloudInfoPB where
  placementCloud : String := ""
  placementRegion : String := ""
  placementZone : String := ""
  deriving DecidableEq, Repr

/-- `PlacementBlockPB`: an unset `min_num_replicas` reads as 0. -/
structure PlacementBlockPB where
  cloudInfo : Option CloudInfoPB := none
  minNumReplicas : Int := 0
  deriving DecidableEq, Repr

/-- `PlacementInfoPB`, without `placement_uuid`, which placement does not read. -/
structure PlacementInfoPB where
  numReplicas : Int := 0
  placementBlocks : List PlacementBlockPB := []
  deriving DecidableEq, Repr

/-- A live tablet server as placement reads it: its uuid and the cloud info it registered. -/
structure TSDescriptor where
  permanentUuid : String
  cloudInfo : CloudInfoPB
  deriving DecidableEq, Repr

/-- The flags placement reads, with their defaults. -/
structure PlacementFlags where
  replicationFactor : Int := 3
  maxCreateTabletsPerTs : Int := 50
  catalogManagerCheckTsCountForCreateTable : Bool := true
  deriving DecidableEq, Repr

/-- The `MasterErrorPB` codes `CheckValidPlacementInfo` sets. -/
inductive MasterErrorCode
  | tooManyTablets | replicationFactorTooHigh | invalidSchema
  deriving DecidableEq, Repr

/-- `TSDescriptor::generate_placement_id`. -/
def generatePlacementId (ci : CloudInfoPB) : String :=
  let cloud := ci.placementCloud
  let region := ci.placementRegion
  let zone := ci.placementZone
  s!"{cloud}:{region}:{zone}"

/-- `TSDescriptor::MatchesCloudInfo`. -/
def TSDescriptor.matchesCloudInfo (ts : TSDescriptor) (cloudInfo : CloudInfoPB) : Bool :=
  cloudInfo.placementCloud == ts.cloudInfo.placementCloud &&
    cloudInfo.placementRegion == ts.cloudInfo.placementRegion &&
    cloudInfo.placementZone == ts.cloudInfo.placementZone

/-- `GetNumReplicasFromPlacementInfo`. -/
def getNumReplicasFromPlacementInfo (flags : PlacementFlags) (placementInfo : PlacementInfoPB) :
    Int :=
  if placementInfo.numReplicas > 0 then placementInfo.numReplicas else flags.replicationFactor

/-- `ShortDebugString` of a block without cloud info: its minimum, when set. -/
def PlacementBlockPB.shortDebugString (pb : PlacementBlockPB) : String :=
  let minNumReplicas := pb.minNumReplicas
  if minNumReplicas = 0 then "" else s!"min_num_replicas: {minNumReplicas}"

/-- `CheckValidPlacementInfo` for `num_live_tservers` servers and `num_partitions` tablets. -/
def checkValidPlacementInfo (flags : PlacementFlags) (placementInfo : PlacementInfoPB)
    (numLiveTservers numPartitions : Nat) : Except (MasterErrorCode × Status) Unit :=
  let numReplicas := getNumReplicasFromPlacementInfo flags placementInfo
  let maxTablets := flags.maxCreateTabletsPerTs * numLiveTservers
  if numReplicas > 1 ∧ maxTablets > 0 ∧ numPartitions > maxTablets then
    .error (.tooManyTablets, ⟨.kInvalidArgument,
      s!"The requested number of tablets ({numPartitions}) is over the permitted maximum ({maxTablets})"⟩)
  else if flags.catalogManagerCheckTsCountForCreateTable ∧ numReplicas > numLiveTservers then
    .error (.replicationFactorTooHigh, ⟨.kInvalidArgument,
      s!"Not enough live tablet servers to create table with replication factor {numReplicas}. " ++
        s!"{numLiveTservers} tablet servers are alive."⟩)
  else if placementInfo.placementBlocks.isEmpty then .ok ()
  else
    -- the loop stops at the first block without cloud info
    match placementInfo.placementBlocks.find? (·.cloudInfo.isNone) with
    | some pb =>
      let text := pb.shortDebugString
      .error (.invalidSchema, ⟨.kInvalidArgument, s!"Got placement info without cloud info set: {text}"⟩)
    | none =>
      let minimumSum := (placementInfo.placementBlocks.map (·.minNumReplicas)).sum
      if minimumSum > numReplicas then
        .error (.invalidSchema, ⟨.kInvalidArgument,
          s!"Sum of minimum replicas per placement ({minimumSum}) is greater than num_replicas " ++
            s!" ({numReplicas})"⟩)
      else .ok ()

/-- `SelectReplica`: a server of `ts_descs` not in `excluded`, the one the draw names. With none
left, `CHECK_EQ(1, two_choices.size())` fails: `none`. -/
def selectReplica (draw : Nat) (tsDescs excluded : List TSDescriptor) : Option TSDescriptor :=
  let candidates := tsDescs.filter fun ts => ts ∉ excluded
  candidates[draw % candidates.length]?

/-- `SelectReplicas`: `nreplicas` more servers of `ts_descs`, each added to the peers of the config
and to `already_selected_ts`, which are one list here, in the order chosen. The draws are
numbered by the servers chosen before them. -/
def selectReplicas (rng : Nat → Nat) (tsDescs : List TSDescriptor) :
    Nat → List TSDescriptor → Option (List TSDescriptor)
  | 0, selected => some selected
  | nreplicas + 1, selected =>
    match selectReplica (rng selected.length) tsDescs selected with
    | none => none
    | some ts => selectReplicas rng tsDescs nreplicas (selected ++ [ts])

/-- `pb_by_id[placement_id] = pb`. -/
def assignBlock (pbById : List (String × PlacementBlockPB)) (placementId : String)
    (pb : PlacementBlockPB) : List (String × PlacementBlockPB) :=
  if (pbById.lookup placementId).isSome then
    pbById.map fun e => if e.1 = placementId then (placementId, pb) else e
  else pbById ++ [(placementId, pb)]

/-- `pb_by_id`: the blocks by placement id, the last block of an id kept. -/
def pbByIdOf (blocks : List PlacementBlockPB) : List (String × PlacementBlockPB) :=
  blocks.foldl (fun pbById pb => assignBlock pbById (generatePlacementId (pb.cloudInfo.getD {})) pb) []

/-- `allowed_ts_by_pi[placement_id].push_back(ts)`. -/
def pushAllowed (allowedTsByPi : List (String × List TSDescriptor)) (placementId : String)
    (ts : TSDescriptor) : List (String × List TSDescriptor) :=
  if (allowedTsByPi.lookup placementId).isSome then
    allowedTsByPi.map fun e => if e.1 = placementId then (placementId, e.2 ++ [ts]) else e
  else allowedTsByPi ++ [(placementId, [ts])]

/-- The sets of allowed servers: for each placement id the servers in its cloud info, and all
servers some block allows, each once, in the order of `ts_descs`. -/
def allowedTs (pbById : List (String × PlacementBlockPB)) (tsDescs : List TSDescriptor) :
    List (String × List TSDescriptor) × List TSDescriptor :=
  tsDescs.foldl (fun (allowedTsByPi, allAllowedTs) ts =>
    let matching := pbById.filter fun e => ts.matchesCloudInfo (e.2.cloudInfo.getD {})
    (matching.foldl (fun allowedTsByPi e => pushAllowed allowedTsByPi e.1 ts) allowedTsByPi,
      if matching.isEmpty then allAllowedTs else allAllowedTs ++ [ts])) ([], [])

/-- The loop over `allowed_ts_by_pi`: each placement id is given the minimum of its block, or
`FLAGS_replication_factor` when that is not positive, from the servers it allows. -/
def selectInPlacements (flags : PlacementFlags) (rng : Nat → Nat)
    (pbById : List (String × PlacementBlockPB)) :
    List (String × List TSDescriptor) → List TSDescriptor →
      Option (Except Status (List TSDescriptor))
  | [], selected => some (.ok selected)
  | (placementId, availableTsDescs) :: entries, selected =>
    let numReplicas := ((pbById.lookup placementId).getD {}).minNumReplicas
    let numReplicas := if numReplicas > 0 then numReplicas else flags.replicationFactor
    if (availableTsDescs.length : Int) < numReplicas then
      let available := availableTsDescs.length
      some (.error ⟨.kInvalidArgument,
        s!"Not enough tablet servers in {placementId}. Need at least {numReplicas} but only have {available}."⟩)
    else
      match selectReplicas rng availableTsDescs numReplicas.toNat selected with
      | none => none
      | some selected => selectInPlacements flags rng pbById entries selected

/-- `HandlePlacementUsingPlacementInfo`: the servers of the peers of the new config, in order, or
the error it returns; `none` when a `CHECK` fails. -/
def handlePlacementUsingPlacementInfo (flags : PlacementFlags) (rng : Nat → Nat)
    (placementInfo : PlacementInfoPB) (tsDescs : List TSDescriptor) :
    Option (Except Status (List TSDescriptor)) :=
  let nreplicas := getNumReplicasFromPlacementInfo flags placementInfo
  if (tsDescs.length : Int) < nreplicas then
    let available := tsDescs.length
    some (.error ⟨.kInvalidArgument,
      s!"Not enough tablet servers in the requested placements. Need at least {nreplicas}, have {available}"⟩)
  else if placementInfo.placementBlocks.isEmpty then
    (selectReplicas rng tsDescs nreplicas.toNat []).map .ok
  else
    let pbById := pbByIdOf placementInfo.placementBlocks
    let (allowedTsByPi, allAllowedTs) := allowedTs pbById tsDescs
    if (allAllowedTs.length : Int) < nreplicas then
      let available := allAllowedTs.length
      some (.error ⟨.kInvalidArgument,
        s!"Not enough tablet servers in the requested placements. Need at least {nreplicas}, have {available}"⟩)
    else
      match selectInPlacements flags rng pbById allowedTsByPi [] with
      | some (.ok selected) =>
        -- DCHECK_GE(replicas_left, 0) is left to release builds, where it does nothing
        let replicasLeft := nreplicas - selected.length
        if replicasLeft > 0 then (selectReplicas rng allAllowedTs replicasLeft.toNat selected).map .ok
        else some (.ok selected)
      | result => result

end FrescoDB.Master
