import Booley.Retention.Reports

/-!
# The dependents of an invocation

How pruning finds the invocations that depend on the campaigns of another one: by the
receipts the origin holds, by the reports and by the projections that cite its manifests, and,
for what none of these locate, by the producer ids in its attempts and results.
-/
namespace Booley.Retention

open Booley.Lib

/-- One dependent invocation. `authenticated` says that its report cites the origin campaign. -/
structure DependentInvocation where
  path : Nat
  authenticated : Bool
deriving DecidableEq

/-! ## Reading the evidence -/

/-- One stored receipt under a manifest. -/
def decodeReceipt (file : Option Receipt) (manifest : ManifestPath) (campaignId : Option String) :
    Except String CampaignDependencyReceipt :=
  match file with
  | none => .error "Malformed Simulation Campaign dependency receipt"
  | some receipt =>
    if receipt.dependentInvocation < 1 then
      .error "Malformed Simulation Campaign dependency receipt"
    else
      let authoritative := receipt.originTarget = manifest.target ∧
        receipt.originInvocation = manifest.invocation
      if authoritative ∧ campaignId ≠ some receipt.campaignId then
        .error "Simulation Campaign dependency origin identity disagrees"
      else .ok ⟨receipt, authoritative⟩

/-- The receipts a campaign holds. -/
def readCampaignDependencies (n : Nat) (campaign : Campaign) :
    Except String (List CampaignDependencyReceipt) :=
  if 1000 < campaign.receipts.length then
    .error "Simulation Campaign dependency registry is too large"
  else campaign.receipts.mapM (decodeReceipt · ⟨n, campaign.target⟩ campaign.campaignId)

/-- The authoritative receipts of one campaign that can be decoded. -/
def heldBy (n : Nat) (campaign : Campaign) : List CampaignDependencyReceipt :=
  (campaign.receipts.filterMap fun file =>
    (decodeReceipt file ⟨n, campaign.target⟩ campaign.campaignId).toOption).filter
      (·.authoritative)

namespace Reports

/-- The digest of a manifest on disk. -/
def manifestSha256 (reports : Reports) (manifest : ManifestPath) : Option String :=
  ((reports.campaigns manifest.invocation).find? (·.target = manifest.target)).map (·.sha256)

/-- A report's reference names exactly this manifest and authenticates it.
`externalOriginTarget` is the Target directory a receipt supplies as a base. -/
def manifestReferenceMatches (reports : Reports) (reference : Option ArtifactReference)
    (manifest : ManifestPath) (campaignId : String) (externalOriginTarget : Option ManifestPath) :
    Bool :=
  match reference with
  | none => false
  | some decoded =>
    let candidate : Option ManifestPath := match decoded.path with
      | .reportsRoot path => some path
      | .externalOriginTarget => externalOriginTarget
    decoded.owner = campaignId && decoded.kind = "simulation_campaign_manifest" &&
      candidate = some manifest && reports.manifestSha256 manifest = some decoded.sha256

/-- A report lists a campaign with a reference that authenticates the manifest. -/
def reportReferencesCampaign (reports : Reports) (report : Option (List ReportCampaign))
    (manifest : ManifestPath) (campaignId : String) (externalOriginTarget : Option ManifestPath) :
    Bool :=
  match report with
  | none => false
  | some campaigns => campaigns.any fun campaign => campaign.campaignId = campaignId &&
      reports.manifestReferenceMatches campaign.manifest manifest campaignId externalOriginTarget

/-- What an invocation's `report.json` lists, when the file is there. -/
def report? (reports : Reports) (n : Nat) : Option (Option (List ReportCampaign)) :=
  (reports.invocations.lookup n).bind (·.invocation.report)

/-- A receipt's dependent cites the campaign, or is pruned already. -/
def authenticateDependentReport (reports : Reports) (receipt : CampaignDependencyReceipt) : Bool :=
  match reports.report? receipt.dependentInvocation with
  | none => reports.completedTombstone receipt.dependentInvocation
  | some report =>
    let manifest : ManifestPath := ⟨receipt.originInvocation, receipt.originTarget⟩
    reports.reportReferencesCampaign report manifest receipt.campaignId (some manifest)

/-- A report cites one of the origin's manifests. -/
def reportReferencesOrigin (reports : Reports) (report : Option (List ReportCampaign))
    (n : Nat) : Bool :=
  (reports.campaigns n).any fun campaign => match campaign.campaignId with
    | none => false
    | some campaignId =>
      reports.reportReferencesCampaign report ⟨n, campaign.target⟩ campaignId none

/-- A projection names one of the origin's manifests. -/
def projectionReferencesOrigin (reports : Reports) (projection : Option ManifestPath)
    (n : Nat) : Bool :=
  match projection with
  | none => false
  | some candidate => candidate ∈ (reports.campaigns n).map (⟨n, ·.target⟩)

/-- The report of an invocation cites one of the origin's manifests. -/
def citesByReport (reports : Reports) (n : Nat) (directory : Directory) : Bool :=
  match directory.invocation.report with
  | none => false
  | some report => reports.reportReferencesOrigin report n

/-- A projection of an invocation names one of the origin's manifests. -/
def citesByProjection (reports : Reports) (n : Nat) (directory : Directory) : Bool :=
  directory.invocation.projections.any (reports.projectionReferencesOrigin · n)

/-! ## Discovery -/

/-- Record the dependent of one receipt. -/
def addReceipt (reports : Reports) (found : Dict Nat DependentInvocation)
    (receipt : CampaignDependencyReceipt) : Dict Nat DependentInvocation :=
  found.insert receipt.dependentInvocation
    ⟨receipt.dependentInvocation, reports.authenticateDependentReport receipt⟩

/-- The dependents an origin's receipts name, each with its last receipt. -/
def receiptDependents (reports : Reports) (n : Nat) :
    Except String (Dict Nat DependentInvocation) :=
  (reports.campaigns n).foldlM (fun found campaign => do
    let receipts ← readCampaignDependencies n campaign
    pure ((receipts.filter (·.authoritative)).foldl reports.addReceipt found)) ∅

/-- Record another invocation when one of its files cites the origin. -/
def addCiting (reports : Reports) (n : Nat) (cites : Directory → Bool)
    (found : Dict Nat DependentInvocation) (dependent : Nat) : Dict Nat DependentInvocation :=
  match reports.invocations.lookup dependent with
  | none => found
  | some directory =>
    if dependent = n ∨ dependent ∈ found then found
    else if cites directory then found.insert dependent ⟨dependent, true⟩ else found

/-- Add the other invocations that one more kind of file shows to depend on the origin. -/
def citingDependents (reports : Reports) (n : Nat) (cites : Directory → Bool)
    (found : Dict Nat DependentInvocation) : Dict Nat DependentInvocation :=
  (sortedPaths (reports.invocations.keys.filter (0 < ·))).foldl (reports.addCiting n cites) found

/-- Refuse when an attempt or result names a producer that is neither the origin, a dependent
found, nor pruned. -/
def rejectUnknownProducers (reports : Reports) (n : Nat)
    (found : Dict Nat DependentInvocation) : Except String Unit :=
  let pruned (producer : Nat) : Bool := match reports.quarantines.lookup producer with
    | some quarantine => quarantine.empty
    | none => false
  let producers := ((reports.campaigns n).flatMap (·.producers)).filter (0 < ·)
  let unknown := producers.filter fun producer =>
    !(decide (producer.toNat ∈ found) || pruned producer.toNat || decide (producer.toNat = n))
  if unknown.isEmpty then .ok ()
  else .error "Simulation Campaign has an unlocatable dependent producer invocation"

/-- Every dependent of an invocation, in path order. -/
def dependentInvocations (reports : Reports) (n : Nat) (rejectUnknown : Bool) :
    Except String (List DependentInvocation) := do
  let received ← reports.receiptDependents n
  let reported := reports.citingDependents n (reports.citesByReport n) received
  let found := reports.citingDependents n (reports.citesByProjection n) reported
  if rejectUnknown then reports.rejectUnknownProducers n found else pure ()
  pure ((sortedPaths found.keys).filterMap found.lookup)

/-! ## Who depends on whom -/

/-- The receipts one invocation holds with authority. -/
def HoldsReceipt (reports : Reports) (n : Nat) (receipt : CampaignDependencyReceipt) : Prop :=
  ∃ campaign ∈ reports.campaigns n, ∃ file ∈ campaign.receipts,
    decodeReceipt file ⟨n, campaign.target⟩ campaign.campaignId = .ok receipt ∧
      receipt.authoritative = true

/-- A report or a projection of the invocation cites a manifest of the origin. -/
def Cites (reports : Reports) (dependent origin : Nat) : Prop :=
  0 < dependent ∧ ∃ directory, reports.invocations.lookup dependent = some directory ∧
    (reports.citesByReport origin directory = true ∨
      reports.citesByProjection origin directory = true)

/-- An invocation depends on another one: it has a receipt there, or it cites a manifest. -/
def DependsOn (reports : Reports) (dependent origin : Nat) : Prop :=
  (∃ receipt, reports.HoldsReceipt origin receipt ∧ receipt.dependentInvocation = dependent) ∨
    (dependent ≠ origin ∧ reports.Cites dependent origin)

variable {reports : Reports} {n : Nat} {found : Dict Nat DependentInvocation}

theorem not_dependsOn_of_gone {dependent : Nat} (hgone : reports.invocations.lookup n = none) :
    ¬ reports.DependsOn dependent n := by
  have hcampaigns : reports.campaigns n = [] := by simp [campaigns, hgone]
  rintro (⟨receipt, ⟨campaign, hcampaign, -⟩, -⟩ | ⟨-, -, directory, -, hcites⟩)
  · simp [hcampaigns] at hcampaign
  · rcases hcites with hreport | hprojection
    · unfold citesByReport at hreport
      split at hreport
      · cases hreport
      · simp [reportReferencesOrigin, hcampaigns] at hreport
    · obtain ⟨projection, -, hnamed⟩ := List.any_eq_true.mp hprojection
      cases projection with
      | none => simp [projectionReferencesOrigin] at hnamed
      | some path => simp [projectionReferencesOrigin, hcampaigns] at hnamed

/-! ## What is discovered -/

/-- Every receipt of the campaigns can be decoded. -/
def Readable (reports : Reports) (n : Nat) : Prop :=
  ∀ campaign ∈ reports.campaigns n, ∃ receipts, readCampaignDependencies n campaign = .ok receipts

/-- The authoritative receipts of an invocation, in the order they are read. -/
def heldReceipts (reports : Reports) (n : Nat) : List CampaignDependencyReceipt :=
  (reports.campaigns n).flatMap (heldBy n)

theorem mem_heldReceipts {receipt : CampaignDependencyReceipt} :
    receipt ∈ reports.heldReceipts n ↔ reports.HoldsReceipt n receipt := by
  simp only [heldReceipts, heldBy, List.mem_flatMap, List.mem_filter, List.mem_filterMap,
    HoldsReceipt]
  constructor
  · rintro ⟨campaign, hcampaign, ⟨file, hfile, hdecode⟩, hauthority⟩
    refine ⟨campaign, hcampaign, file, hfile, ?_, hauthority⟩
    cases hresult : decodeReceipt file ⟨n, campaign.target⟩ campaign.campaignId with
    | error refusal => simp [hresult, Except.toOption] at hdecode
    | ok decoded =>
      rw [hresult] at hdecode
      rw [Option.some.inj hdecode]
  · rintro ⟨campaign, hcampaign, file, hfile, hdecode, hauthority⟩
    exact ⟨campaign, hcampaign, ⟨file, hfile, by rw [hdecode]; rfl⟩, hauthority⟩

theorem heldBy_eq {campaign : Campaign} {receipts : List CampaignDependencyReceipt}
    (h : readCampaignDependencies n campaign = .ok receipts) :
    heldBy n campaign = receipts.filter (·.authoritative) := by
  have hfiles : ∀ (files : List (Option Receipt)) (receipts : List CampaignDependencyReceipt),
      files.mapM (decodeReceipt · ⟨n, campaign.target⟩ campaign.campaignId) = .ok receipts →
      files.filterMap (fun file =>
        (decodeReceipt file ⟨n, campaign.target⟩ campaign.campaignId).toOption) = receipts := by
    intro files
    induction files with
    | nil =>
      intro receipts h
      obtain rfl : [] = receipts := by simpa [pure, Except.pure] using h
      rfl
    | cons file files ih =>
      intro receipts h
      rw [List.mapM_cons] at h
      obtain ⟨first, hfirst, h⟩ := except_bind_eq_ok.mp h
      obtain ⟨rest, hrest, h⟩ := except_bind_eq_ok.mp h
      obtain rfl : first :: rest = receipts := by simpa [pure, Except.pure] using h
      have hdecoded : (decodeReceipt file ⟨n, campaign.target⟩ campaign.campaignId).toOption =
          some first := by
        rw [hfirst]
        rfl
      simp [hdecoded, ih rest hrest]
  rw [readCampaignDependencies] at h
  split_ifs at h
  rw [heldBy, hfiles campaign.receipts receipts h]

/-- The receipts are read into the dependents they name, unless one cannot be decoded. -/
theorem receiptDependents_eq_ok_iff : reports.receiptDependents n = .ok found ↔
    reports.Readable n ∧ found = (reports.heldReceipts n).foldl reports.addReceipt ∅ := by
  have hfold : ∀ (rest : List Campaign) (start found : Dict Nat DependentInvocation),
      rest.foldlM (fun found campaign => do
        let receipts ← readCampaignDependencies n campaign
        pure ((receipts.filter (·.authoritative)).foldl reports.addReceipt found)) start =
          (.ok found : Except String (Dict Nat DependentInvocation)) ↔
      (∀ campaign ∈ rest, ∃ receipts, readCampaignDependencies n campaign = .ok receipts) ∧
        found = (rest.flatMap (heldBy n)).foldl reports.addReceipt start := by
    intro rest
    induction rest with
    | nil => simp [pure, Except.pure, eq_comm]
    | cons campaign rest ih =>
      intro start found
      rw [List.foldlM_cons, except_bind_eq_ok]
      cases hread : readCampaignDependencies n campaign with
      | error refusal => simp [hread, bind, Except.bind]
      | ok receipts =>
        have hstep : ∀ next, ((do
              let receipts ← (Except.ok receipts : Except String _)
              pure ((receipts.filter (·.authoritative)).foldl reports.addReceipt start)) =
                Except.ok next) ↔ next = (heldBy n campaign).foldl reports.addReceipt start := by
          intro next
          rw [except_ok_bind, heldBy_eq hread]
          exact ⟨fun h => (Except.ok.inj h).symm, fun h => h ▸ rfl⟩
        simp only [hstep, exists_eq_left, ih, List.forall_mem_cons, hread, List.flatMap_cons,
          List.foldl_append]
        simp
  exact hfold (reports.campaigns n) ∅ found

theorem lookup_addCiting (cites : Directory → Bool) (path dependent : Nat) :
    (reports.addCiting n cites found path).lookup dependent =
      (found.lookup dependent).or
        (if dependent = path ∧ dependent ≠ n ∧
            ∃ directory, reports.invocations.lookup path = some directory ∧ cites directory = true
          then some ⟨dependent, true⟩ else none) := by
  unfold addCiting
  cases hlookup : reports.invocations.lookup path with
  | none => simp
  | some directory =>
    by_cases hpath : dependent = path
    · subst hpath
      by_cases hmem : dependent ∈ found
      · obtain ⟨item, hitem⟩ := Option.isSome_iff_exists.mp (AList.lookup_isSome.mpr hmem)
        simp [hmem, hitem]
      · have hnone : found.lookup dependent = none := AList.lookup_eq_none.mpr hmem
        by_cases hn : dependent = n
        · simp [hn]
        · by_cases hcites : cites directory = true
          · simp [hn, hmem, hcites, hnone]
          · simp [hn, hmem, hcites]
    · have hsame : ∀ item, (found.insert path item).lookup dependent = found.lookup dependent :=
        fun _ => AList.lookup_insert_ne hpath
      simp only [hpath, false_and, if_false, Option.or_none]
      split_ifs
      · rfl
      · exact hsame _
      · rfl

/-- A dependent is found by one more kind of file exactly when it was found before or the
file cites the origin. -/
theorem lookup_citingDependents (cites : Directory → Bool) (dependent : Nat) :
    (reports.citingDependents n cites found).lookup dependent =
      (found.lookup dependent).or
        (if 0 < dependent ∧ dependent ≠ n ∧ ∃ directory,
            reports.invocations.lookup dependent = some directory ∧ cites directory = true
          then some ⟨dependent, true⟩ else none) := by
  have hfold : ∀ (paths : List Nat) (found : Dict Nat DependentInvocation),
      (paths.foldl (reports.addCiting n cites) found).lookup dependent =
        (found.lookup dependent).or
          (if dependent ∈ paths ∧ dependent ≠ n ∧ ∃ directory,
              reports.invocations.lookup dependent = some directory ∧ cites directory = true
            then some ⟨dependent, true⟩ else none) := by
    intro paths
    induction paths with
    | nil => simp
    | cons path paths ih =>
      intro found
      rw [List.foldl_cons, ih, lookup_addCiting, Option.or_assoc]
      congr 1
      by_cases hpath : dependent = path
      · subst hpath
        by_cases hcites : dependent ≠ n ∧ ∃ directory,
            reports.invocations.lookup dependent = some directory ∧ cites directory = true
        · simp [hcites]
        · simp only [hcites, and_false, if_false, Option.or_none]
      · simp [hpath]
  rw [citingDependents, hfold]
  congr 2
  rw [mem_sortedPaths, List.mem_filter]
  apply propext
  constructor
  · exact fun h => ⟨by simpa using h.1.2, h.2⟩
  · rintro ⟨hpositive, hn, directory, hlookup, hcites⟩
    have hmem : dependent ∈ reports.invocations.keys :=
      AList.mem_keys.mpr (AList.lookup_isSome.mp (by simp [hlookup]))
    exact ⟨⟨hmem, by simpa using hpositive⟩, hn, directory, hlookup, hcites⟩

/-- What decides whether a dependent is authenticated: its last receipt, if it has one. -/
def authenticates (reports : Reports) (n dependent : Nat) : Bool :=
  match (reports.heldReceipts n).reverse.find? (·.dependentInvocation = dependent) with
  | some receipt => reports.authenticateDependentReport receipt
  | none => true

/-- A dependent with a receipt that is authenticated is so by one of its receipts. -/
theorem exists_receipt_of_authenticates {dependent : Nat}
    (h : reports.authenticates n dependent = true)
    (hreceipt : ∃ receipt, reports.HoldsReceipt n receipt ∧
      receipt.dependentInvocation = dependent) :
    ∃ receipt, reports.HoldsReceipt n receipt ∧ receipt.dependentInvocation = dependent ∧
      reports.authenticateDependentReport receipt = true := by
  obtain ⟨receipt, hholds, hdependent⟩ := hreceipt
  cases hfind : (reports.heldReceipts n).reverse.find? (·.dependentInvocation = dependent) with
  | none =>
    have hnot := List.find?_eq_none.mp hfind receipt
      (List.mem_reverse.mpr (mem_heldReceipts.mpr hholds))
    simp [hdependent] at hnot
  | some last =>
    have hlast := mem_heldReceipts.mp (List.mem_reverse.mp (List.mem_of_find?_eq_some hfind))
    have hpath : last.dependentInvocation = dependent := by simpa using List.find?_some hfind
    exact ⟨last, hlast, hpath, by simpa [authenticates, hfind] using h⟩

/-- What discovery returns: each dependent once, with what its last receipt says. -/
structure Discovered (reports : Reports) (n : Nat) (dependencies : List DependentInvocation) :
    Prop where
  nodup : (dependencies.map (·.path)).Nodup
  mem_iff : ∀ dependent, dependent ∈ dependencies.map (·.path) ↔ reports.DependsOn dependent n
  authenticated : ∀ item ∈ dependencies, item.authenticated = reports.authenticates n item.path

/-- A producer that is neither the origin, one of its dependents nor pruned. -/
def Unlocatable (reports : Reports) (n producer : Nat) : Prop :=
  (∃ campaign ∈ reports.campaigns n, (producer : Int) ∈ campaign.producers) ∧ 0 < producer ∧
    producer ≠ n ∧ ¬ reports.DependsOn producer n ∧
    reports.quarantines.lookup producer ≠ some ⟨none, none, []⟩

/-- What discovery has in hand for each dependent it has found so far. -/
structure Found (reports : Reports) (n : Nat) (found : Dict Nat DependentInvocation)
    (cited : Nat → Prop) : Prop where
  path : ∀ dependent item, found.lookup dependent = some item → item.path = dependent
  isSome_iff : ∀ dependent, (found.lookup dependent).isSome = true ↔
    (∃ receipt, reports.HoldsReceipt n receipt ∧ receipt.dependentInvocation = dependent) ∨
      (dependent ≠ n ∧ cited dependent)
  authenticated : ∀ dependent item, found.lookup dependent = some item →
    item.authenticated = reports.authenticates n dependent

theorem found_of_receipts :
    reports.Found n ((reports.heldReceipts n).foldl reports.addReceipt ∅) fun _ => False := by
  have hlookup : ∀ dependent, ((reports.heldReceipts n).foldl reports.addReceipt ∅).lookup
        dependent =
      ((reports.heldReceipts n).reverse.find? (·.dependentInvocation = dependent)).map
        fun receipt =>
          ⟨receipt.dependentInvocation, reports.authenticateDependentReport receipt⟩ := by
    intro dependent
    have hlast := Dict.lookup_foldl_insert (·.dependentInvocation)
      (fun receipt => (⟨receipt.dependentInvocation,
        reports.authenticateDependentReport receipt⟩ : DependentInvocation))
      (reports.heldReceipts n) ∅ dependent
    rw [AList.lookup_empty, Option.or_none] at hlast
    exact hlast
  refine ⟨?_, ?_, ?_⟩
  · intro dependent item hitem
    rw [hlookup] at hitem
    obtain ⟨receipt, hfind, rfl⟩ := Option.map_eq_some_iff.mp hitem
    simpa using List.find?_some hfind
  · intro dependent
    rw [hlookup, Option.isSome_map, List.find?_isSome]
    simp [mem_heldReceipts]
  · intro dependent item hitem
    rw [hlookup] at hitem
    obtain ⟨receipt, hfind, rfl⟩ := Option.map_eq_some_iff.mp hitem
    simp [authenticates, hfind]

/-- One more kind of file adds the invocations it cites the origin in. -/
theorem Found.citing {cited : Nat → Prop} (h : reports.Found n found cited)
    (cites : Directory → Bool) :
    reports.Found n (reports.citingDependents n cites found) fun dependent =>
      cited dependent ∨ 0 < dependent ∧ ∃ directory,
        reports.invocations.lookup dependent = some directory ∧ cites directory = true := by
  have hcases : ∀ dependent item,
      (reports.citingDependents n cites found).lookup dependent = some item →
      found.lookup dependent = some item ∨
        found.lookup dependent = none ∧ item = ⟨dependent, true⟩ := by
    intro dependent item hitem
    rw [lookup_citingDependents] at hitem
    cases hlookup : found.lookup dependent with
    | some before =>
      rw [hlookup] at hitem
      exact .inl hitem
    | none =>
      simp only [hlookup, Option.none_or, Option.ite_none_right_eq_some, Option.some.injEq]
        at hitem
      exact .inr ⟨rfl, hitem.2.symm⟩
  refine ⟨?_, ?_, ?_⟩
  · intro dependent item hitem
    rcases hcases dependent item hitem with hbefore | ⟨-, rfl⟩
    · exact h.path dependent item hbefore
    · rfl
  · intro dependent
    have hbefore := h.isSome_iff dependent
    rw [lookup_citingDependents]
    by_cases hnew : 0 < dependent ∧ dependent ≠ n ∧ ∃ directory,
        reports.invocations.lookup dependent = some directory ∧ cites directory = true
    · simp [hnew]
    · simp only [hnew, if_false, Option.or_none, hbefore]
      constructor
      · rintro (hreceipt | ⟨hn, hcited⟩)
        · exact .inl hreceipt
        · exact .inr ⟨hn, .inl hcited⟩
      · rintro (hreceipt | ⟨hn, hcited | ⟨hpositive, hcites⟩⟩)
        · exact .inl hreceipt
        · exact .inr ⟨hn, hcited⟩
        · exact absurd ⟨hpositive, hn, hcites⟩ hnew
  · intro dependent item hitem
    rcases hcases dependent item hitem with hbefore | ⟨hnone, rfl⟩
    · exact h.authenticated dependent item hbefore
    · have hno : ∀ receipt ∈ (reports.heldReceipts n).reverse,
          ¬ receipt.dependentInvocation = dependent := by
        intro receipt hreceipt hdependent
        have hsome := (h.isSome_iff dependent).mpr (.inl ⟨receipt,
          mem_heldReceipts.mp (List.mem_reverse.mp hreceipt), hdependent⟩)
        simp [hnone] at hsome
      have hfind : (reports.heldReceipts n).reverse.find?
          (·.dependentInvocation = dependent) = none :=
        List.find?_eq_none.mpr fun receipt hreceipt => by simpa using hno receipt hreceipt
      simp [authenticates, hfind]

/-- What discovery has found once every kind of file is read. -/
def foundDependents (reports : Reports) (n : Nat) : Dict Nat DependentInvocation :=
  reports.citingDependents n (reports.citesByProjection n)
    (reports.citingDependents n (reports.citesByReport n)
      ((reports.heldReceipts n).foldl reports.addReceipt ∅))

theorem found_foundDependents :
    reports.Found n (reports.foundDependents n) (reports.Cites · n) := by
  have hreceived : reports.Found n ((reports.heldReceipts n).foldl reports.addReceipt ∅)
      fun _ => False := found_of_receipts
  have hfound := (hreceived.citing (reports.citesByReport n)).citing (reports.citesByProjection n)
  have hcites : (fun dependent => (False ∨ 0 < dependent ∧ ∃ directory,
        reports.invocations.lookup dependent = some directory ∧
          reports.citesByReport n directory = true) ∨ 0 < dependent ∧ ∃ directory,
      reports.invocations.lookup dependent = some directory ∧
        reports.citesByProjection n directory = true) = (reports.Cites · n) := by
    funext dependent
    simp only [Cites, false_or, and_or_left, exists_or]
  rw [hcites] at hfound
  exact hfound

theorem mem_foundDependents {dependent : Nat} :
    dependent ∈ reports.foundDependents n ↔ reports.DependsOn dependent n := by
  rw [← AList.lookup_isSome]
  exact found_foundDependents.isSome_iff dependent

theorem rejectUnknownProducers_eq_ok_iff :
    reports.rejectUnknownProducers n (reports.foundDependents n) = .ok () ↔
      ∀ producer, ¬ reports.Unlocatable n producer := by
  have hpruned : ∀ producer : Nat, (match reports.quarantines.lookup producer with
      | some quarantine => quarantine.empty
      | none => false) = true ↔ reports.quarantines.lookup producer = some ⟨none, none, []⟩ := by
    intro producer
    cases reports.quarantines.lookup producer with
    | none => simp
    | some quarantine =>
      obtain ⟨journal, batch, others⟩ := quarantine
      simp [Quarantine.empty, and_assoc]
  simp only [rejectUnknownProducers, List.isEmpty_iff, ite_eq_left_iff, reduceCtorEq, imp_false,
    not_not, List.filter_eq_nil_iff, List.mem_filter, List.mem_flatMap, decide_eq_true_eq,
    Bool.not_eq_true', Bool.not_eq_false, Bool.or_eq_true, mem_foundDependents, hpruned]
  constructor
  · rintro h producer ⟨hproducer, hpositive, hn, hdepends, hquarantine⟩
    rcases h producer ⟨hproducer, by simpa using hpositive⟩ with (hfound | hempty) | heq
    · exact hdepends (by simpa using hfound)
    · exact hquarantine (by simpa using hempty)
    · exact hn (by simpa using heq)
  · rintro h producer ⟨hproducer, hpositive⟩
    have hcast : (producer.toNat : Int) = producer := Int.toNat_of_nonneg hpositive.le
    by_contra hnot
    simp only [not_or] at hnot
    exact h producer.toNat ⟨by rwa [hcast], by omega, hnot.2, hnot.1.1, hnot.1.2⟩

/-- Discovery succeeds exactly when every receipt can be decoded and, where it is asked to
refuse them, no producer is unlocatable. -/
theorem dependentInvocations_eq_ok_iff {rejectUnknown : Bool}
    {dependencies : List DependentInvocation} :
    reports.dependentInvocations n rejectUnknown = .ok dependencies ↔
      reports.Readable n ∧
        (rejectUnknown = true → ∀ producer, ¬ reports.Unlocatable n producer) ∧
        dependencies = (sortedPaths (reports.foundDependents n).keys).filterMap
          ((reports.foundDependents n).lookup ·) := by
  unfold dependentInvocations
  rw [except_bind_eq_ok]
  simp only [receiptDependents_eq_ok_iff, and_assoc, exists_and_left, exists_eq_left]
  apply and_congr_right
  intro _
  cases rejectUnknown with
  | false => simp [pure, Except.pure, foundDependents, eq_comm]
  | true =>
    rw [if_pos rfl, except_bind_eq_ok]
    simp only [← rejectUnknownProducers_eq_ok_iff]
    constructor
    · rintro ⟨⟨⟩, hreject, h⟩
      exact ⟨fun _ => hreject, (Except.ok.inj h).symm⟩
    · rintro ⟨hreject, rfl⟩
      exact ⟨(), hreject trivial, rfl⟩

/-- The dependents are returned in path order. -/
theorem paths_of_dependentInvocations {rejectUnknown : Bool}
    {dependencies : List DependentInvocation}
    (h : reports.dependentInvocations n rejectUnknown = .ok dependencies) :
    dependencies.map (·.path) = sortedPaths (reports.foundDependents n).keys := by
  obtain ⟨-, -, rfl⟩ := dependentInvocations_eq_ok_iff.mp h
  have hfound : reports.Found n (reports.foundDependents n) (reports.Cites · n) :=
    found_foundDependents
  have hpaths : ∀ paths : List Nat, (∀ path ∈ paths, path ∈ reports.foundDependents n) →
      (paths.filterMap ((reports.foundDependents n).lookup ·)).map (·.path) = paths := by
    intro paths
    induction paths with
    | nil => simp
    | cons path paths ih =>
      intro hpaths
      obtain ⟨item, hitem⟩ := Option.isSome_iff_exists.mp
        (AList.lookup_isSome.mpr (hpaths path (by simp)))
      have hrest := ih fun other hother => hpaths other (by simp [hother])
      simp [hitem, hfound.path path item hitem, hrest]
  exact hpaths (sortedPaths (reports.foundDependents n).keys) fun path hpath =>
    AList.mem_keys.mpr (mem_sortedPaths.mp hpath)

theorem discovered_of_dependentInvocations {rejectUnknown : Bool}
    {dependencies : List DependentInvocation}
    (h : reports.dependentInvocations n rejectUnknown = .ok dependencies) :
    reports.Discovered n dependencies := by
  have hkeys := paths_of_dependentInvocations h
  have hfound : reports.Found n (reports.foundDependents n) (reports.Cites · n) :=
    found_foundDependents
  refine ⟨?_, ?_, ?_⟩
  · rw [hkeys]
    exact (sortedPaths_perm _).nodup_iff.mpr (reports.foundDependents n).nodupKeys
  · intro dependent
    rw [hkeys, mem_sortedPaths, ← AList.mem_keys, mem_foundDependents]
  · intro item hitem
    obtain ⟨-, -, rfl⟩ := dependentInvocations_eq_ok_iff.mp h
    obtain ⟨path, -, hlookup⟩ := List.mem_filterMap.mp hitem
    rw [hfound.path path item hlookup]
    exact hfound.authenticated path item hlookup

/-- Discovery refuses an invocation with an unlocatable producer. -/
theorem not_unlocatable_of_dependentInvocations {dependencies : List DependentInvocation}
    (h : reports.dependentInvocations n true = .ok dependencies) (producer : Nat) :
    ¬ reports.Unlocatable n producer :=
  (dependentInvocations_eq_ok_iff.mp h).2.1 rfl producer

end Reports

end Booley.Retention
