import ObjyDb.Store.BuildSteps

/-!
# JobSteps — the invariant through the slices of background jobs

Every slice of a job that runs under its condition keeps the invariant: a scanned row, the
installation of the scanned columns, a row of the strip pass, and a batch of the catch-up.

- `stepJob_inv`
- `SafeStrip`, `SafeCatchUp`: the conditions on the strip pass and on the catch-up
-/

namespace ObjyDb

open Js

namespace Collection

variable {vectorField : Option JsString} {c d : Collection}
  {columns : List (JsString × TypedRidColumn)} {dirty : Nat → Bool}
  {registers : JsString → Option Write}

/-! ## Reading a row -/

/-- What a row id is read as: its live row, with the value of the register. -/
theorem Sound.readRid (h : Sound vectorField c c.columns c.indexDirtyRids.has registers)
    {rid : Nat} {object : Fields}
    (hread : c.readRid rid = some object) :
    ∃ id m value, LiveRow c registers id m value ∧ m.rid = rid ∧ c.idForRid rid = some id ∧
      (Json.obj object).WellFormed ∧ Shows id object (withoutVector vectorField value) ∧
      ValueOk c.collectionMeta (withoutVector vectorField value) := by
  unfold Collection.readRid at hread
  cases hid : c.idForRid rid with
  | none => rw [hid] at hread; cases hread
  | some id =>
      rw [hid] at hread
      dsimp only at hread
      obtain ⟨m, hm, hrid⟩ := h.owners rid id hid
      cases hdeleted : m.deleted with
      | some ts =>
          rw [Collection.read, hm] at hread
          simp [hdeleted] at hread
      | none =>
          obtain ⟨value, hlive⟩ := h.liveRow hm hdeleted
          obtain ⟨w, hw, hwvalue⟩ := hlive.newest
          have hvalue := h.rows.values hw hwvalue
          obtain ⟨object', hread', hwf, hshows⟩ := LiveOk.shows hm hdeleted
            h.rows.columnsOk hvalue (h.rows.live hlive)
          obtain rfl := Option.some.inj (hread.symm.trans hread')
          exact ⟨id, m, value, hlive, hrid, rfl, hwf, hshows, hvalue⟩

/-- A live row is read. -/
theorem Sound.readRid_live (h : Sound vectorField c c.columns c.indexDirtyRids.has registers)
    {id : JsString} {m : RowMeta} {value : Fields} (hlive : LiveRow c registers id m value) :
    ∃ object, c.readRid m.rid = some object ∧ (Json.obj object).WellFormed ∧
      Shows id object (withoutVector vectorField value) := by
  obtain ⟨w, hw, hwvalue⟩ := hlive.newest
  obtain ⟨object, hread, hshown⟩ := LiveOk.shows hlive.entry (hlive.deleted_none h.rows.recorded).1
    h.rows.columnsOk (h.rows.values hw hwvalue) (h.rows.live hlive)
  refine ⟨object, ?_, hshown⟩
  have hid : c.idForRid m.rid = some id := h.rows.rids.owned hlive.entry
  unfold Collection.readRid
  rw [hid]
  exact hread

/-! ## Jobs that go on and jobs that end -/

theorem ScansOk.endJob (h : ScansOk vectorField c columns registers) (id : Nat) :
    ScansOk vectorField (c.endJob id) columns registers := by
  have hkeys : Assoc.keys (c.endJob id).jobs = (Assoc.keys c.jobs).filter fun k => decide (k ≠ id) :=
    Assoc.keys_erase c.jobs id
  refine h.of_jobs rfl rfl (hkeys ▸ h.jobsNodup.filter _) (fun {job} hjob => ?_) fun {job _} hget => ?_
  · rw [hkeys] at hjob
    exact h.jobsFresh (List.mem_filter.mp hjob).1
  · change Assoc.get? (Assoc.erase c.jobs id) job = _ at hget
    rw [Assoc.get?_erase] at hget
    split_ifs at hget
    exact .inl hget

theorem Inv.endJob (h : Inv vectorField c registers) (id : Nat) :
    Inv vectorField (c.endJob id) registers :=
  h.sameReads ⟨⟨rfl, rfl, rfl, rfl, rfl, rfl, rfl, rfl⟩, rfl, rfl⟩ (h.sound.scans.endJob id)

/-- A job that is running goes on. -/
theorem keys_setJob {id : Nat} {job : Job} (hjob : Assoc.get? c.jobs id = some job) (next : Job) :
    Assoc.keys (c.setJob id next).jobs = Assoc.keys c.jobs := by
  change Assoc.keys (Assoc.set c.jobs id next) = _
  rw [Assoc.keys_set, if_pos (Assoc.get?_isSome_iff.mp (by rw [hjob]; rfl))]

theorem ScansOk.setPassive (h : ScansOk vectorField c columns registers) {id : Nat} {job next : Job}
    (hjob : Assoc.get? c.jobs id = some job) (hpassive : Passive c.collectionMeta next) :
    ScansOk vectorField (c.setJob id next) columns registers := by
  have hkeys := keys_setJob hjob next
  refine h.of_jobs rfl rfl (hkeys ▸ h.jobsNodup) (fun {k} hk => h.jobsFresh (hkeys ▸ hk))
    fun {k _} hget => ?_
  change Assoc.get? (Assoc.set c.jobs id next) k = _ at hget
  rw [Assoc.get?_set] at hget
  split_ifs at hget
  · exact .inr (Option.some.inj hget ▸ hpassive)
  · exact .inl hget

theorem Inv.setPassive (h : Inv vectorField c registers) {id : Nat} {job next : Job}
    (hjob : Assoc.get? c.jobs id = some job) (hpassive : Passive c.collectionMeta next) :
    Inv vectorField (c.setJob id next) registers :=
  h.sameReads ⟨⟨rfl, rfl, rfl, rfl, rfl, rfl, rfl, rfl⟩, rfl, rfl⟩
    (h.sound.scans.setPassive hjob hpassive)

/-! ## A row of a scan -/

/-- What a scan has built after one more entry. -/
def scannedRow (c : Collection) (entry : JsString × RowMeta)
    (built : List (JsString × TypedRidColumn)) : List (JsString × TypedRidColumn) :=
  if entry.2.deleted.isSome then built else c.scanColumnRow entry.2 built

theorem scannedRow_source (h : Sound vectorField c c.columns c.indexDirtyRids.has registers)
    {entry : JsString × RowMeta} (hentry : Assoc.get? c.objects entry.1 = some entry.2)
    {built : List (JsString × TypedRidColumn)} {path : JsString} {source : TypedRidColumn}
    (hpath : path ∈ c.collectionMeta.columns) (hsource : Assoc.get? built path = some source)
    (hok : SourceOk source) :
    ∃ source', Assoc.get? (c.scannedRow entry built) path = some source' ∧ SourceOk source' ∧
      (∀ r, r ≠ entry.2.rid → source'.valueFor r = source.valueFor r) ∧
      ∀ {value}, LiveRow c registers entry.1 entry.2 value →
        HoldsValue (source'.valueFor entry.2.rid) (withoutVector vectorField value) path := by
  unfold scannedRow
  cases hdeleted : entry.2.deleted with
  | some ts =>
      refine ⟨source, hsource, hok, fun _ _ => rfl, fun hlive => ?_⟩
      cases (hlive.deleted_none h.rows.recorded).1.symm.trans hdeleted
  | none =>
      rw [if_neg (by simp)]
      obtain ⟨value, hlive⟩ := h.liveRow hentry hdeleted
      obtain ⟨w, hw, hwvalue⟩ := hlive.newest
      have hvalue := h.rows.values hw hwvalue
      obtain ⟨object, hread, hwf, hshows⟩ := h.readRid_live hlive
      have hplain := hvalue.columns path hpath
      have hnotBuilding : source.status ≠ .building := by rw [hok.ready]; decide
      unfold scanColumnRow
      rw [hread]
      dsimp only
      rw [Assoc.get?_mapValues, hsource]
      have hvalueFor : ∀ r, (source.updateScalarState entry.2.rid
          (columnScalarState (getPathValue (.obj object) path))).valueFor r =
            if entry.2.rid = r then getPathValue (.obj object) path else source.valueFor r := by
        intro r
        rw [TypedRidColumn.updateScalarState_of_not_building hnotBuilding,
          TypedRidColumn.valueFor_applyState, TypedRidColumn.value?_columnScalarState]
      refine ⟨_, rfl, ⟨?_, fun {r x} hx => ?_⟩, fun r hr => ?_, fun {value'} hlive' => ?_⟩
      · exact (source.updateScalarState_frame _ _).1.trans hok.ready
      · rw [hvalueFor] at hx
        split_ifs at hx
        · exact wellFormed_getPathValue hwf (hplain.of_view hshows.view) hx
        · exact hok.values hx
      · rw [hvalueFor, if_neg (Ne.symm hr)]
      · obtain ⟨w', hw', hwvalue'⟩ := hlive'.newest
        obtain rfl := Option.some.inj (hw'.symm.trans hw)
        obtain rfl := Option.some.inj (hwvalue'.symm.trans hwvalue)
        rw [hvalueFor, if_pos rfl]
        exact holdsValue_getPathValue hplain hshows.view

/-- One entry is scanned. -/
theorem ScansOk.scanRow (h : Sound vectorField c c.columns c.indexDirtyRids.has registers) {id : Nat}
    {targets : List (JsString × Nat)} {built : List (JsString × TypedRidColumn)} {scanned : Nat}
    (hjob : Assoc.get? c.jobs id = some (.columns targets built scanned))
    {entry : JsString × RowMeta} (hentry : c.objects[scanned]? = some entry) :
    ScansOk vectorField
      (c.setJob id (.columns targets (c.scannedRow entry built) (scanned + 1))) c.columns
      registers := by
  have hkeys := keys_setJob hjob (.columns targets (c.scannedRow entry built) (scanned + 1))
  have hmem : entry ∈ c.objects := List.mem_of_getElem? hentry
  have hget : Assoc.get? c.objects entry.1 = some entry.2 := h.rows.rids.get?_of_mem hmem
  -- a job of columns after the step is another one, or this one with one more row
  have hcases : ∀ {job targets' built' scanned'},
      Assoc.get? (c.setJob id (.columns targets (c.scannedRow entry built) (scanned + 1))).jobs job =
        some (.columns targets' built' scanned') →
      job ≠ id ∧ Assoc.get? c.jobs job = some (.columns targets' built' scanned') ∨
        job = id ∧ targets' = targets ∧ built' = c.scannedRow entry built ∧
          scanned' = scanned + 1 := by
    intro job targets' built' scanned' hj
    change Assoc.get? (Assoc.set c.jobs id _) job = _ at hj
    rw [Assoc.get?_set] at hj
    split_ifs at hj with heq
    · obtain ⟨rfl, rfl, rfl⟩ := Job.columns.inj (Option.some.inj hj)
      exact .inr ⟨heq.symm, rfl, rfl, rfl⟩
    · exact .inl ⟨Ne.symm heq, hj⟩
  have hback : ∀ {job targets' built' scanned'},
      Assoc.get? (c.setJob id (.columns targets (c.scannedRow entry built) (scanned + 1))).jobs job =
        some (.columns targets' built' scanned') →
      ∃ built'' scanned'', Assoc.get? c.jobs job = some (.columns targets' built'' scanned'') := by
    intro job targets' built' scanned' hj
    rcases hcases hj with ⟨-, hold⟩ | ⟨rfl, rfl, -, -⟩
    · exact ⟨_, _, hold⟩
    · exact ⟨_, _, hjob⟩
  refine ⟨hkeys ▸ h.scans.jobsNodup, fun hk => h.scans.jobsFresh (hkeys ▸ hk), fun hj => ?_, ?_, ?_, ?_⟩
  · obtain ⟨_, _, hold⟩ := hback hj
    exact h.scans.targetsNodup hold
  · intro job targets' built' scanned' path buildId hj hm
    rcases hcases hj with ⟨-, hold⟩ | ⟨rfl, rfl, rfl, rfl⟩
    · obtain ⟨hone, hwanted, source, hsource, hok, hscan⟩ := h.scans.scans hold hm
      refine ⟨hone, hwanted, source, hsource, hok, fun column hcolumn hid => ?_⟩
      obtain ⟨hbuilding, hrows⟩ := hscan column hcolumn hid
      exact ⟨hbuilding, fun hi hlive => hrows hi ⟨hlive.entry, hlive.newest⟩⟩
    · obtain ⟨hone, hwanted, source, hsource, hok, hscan⟩ := h.scans.scans hjob hm
      obtain ⟨source', hsource', hok', hother, hhere⟩ :=
        scannedRow_source h hget hwanted hsource hok
      refine ⟨hone, hwanted, source', hsource', hok', fun column hcolumn hid => ?_⟩
      obtain ⟨hbuilding, hrows⟩ := hscan column hcolumn hid
      refine ⟨hbuilding, fun {i id' m value} hi hlive => ?_⟩
      have hlive' : LiveRow c registers id' m value := ⟨hlive.entry, hlive.newest⟩
      have hrow := hrows hi hlive'
      -- a pending change counts for more than what was scanned
      cases hpending : Assoc.get? column.pending m.rid with
      | some state =>
          rw [hpending] at hrow
          exact hrow
      | none =>
          rw [hpending] at hrow
          intro hlt
          by_cases hrid : m.rid = entry.2.rid
          · -- the row that was just scanned
            have hid' : id' = entry.1 := by
              by_contra hne
              exact h.rows.rids.rid_ne hlive'.entry hget hne hrid
            subst hid'
            obtain rfl := Option.some.inj (hlive'.entry.symm.trans hget)
            exact hhere hlive'
          · rw [hother m.rid hrid]
            refine hrow (Nat.lt_of_le_of_ne (Nat.le_of_lt_succ hlt) fun heq => hrid ?_)
            rw [heq] at hi
            change (Assoc.keys c.objects)[scanned]? = some id' at hi
            rw [Assoc.keys, List.getElem?_map, hentry] at hi
            obtain rfl := Option.some.inj hi
            exact congrArg RowMeta.rid (Option.some.inj (hlive'.entry.symm.trans hget))
  · intro job job' targets₁ targets₂ built₁ built₂ scanned₁ scanned₂ path buildId column h1 hm1 h2 hm2
    obtain ⟨_, _, hold₁⟩ := hback h1
    obtain ⟨_, _, hold₂⟩ := hback h2
    exact h.scans.exclusive hold₁ hm1 hold₂ hm2
  · intro job paths scanned' hj
    change Assoc.get? (Assoc.set c.jobs id _) job = _ at hj
    rw [Assoc.get?_set] at hj
    split_ifs at hj
    · cases hj
    · exact h.scans.strips hj

/-! ## Installing what was scanned -/

/-- `installColumn` on the columns. -/
def installedColumn (built : List (JsString × TypedRidColumn))
    (s : List (JsString × TypedRidColumn) × List JsString) (target : JsString × Nat) :
    List (JsString × TypedRidColumn) × List JsString :=
  match Assoc.get? s.1 target.1, Assoc.get? built target.1 with
  | some column, some source =>
      match column.install source target.2 with
      | some installed => (Assoc.set s.1 target.1 installed, s.2 ++ [target.1])
      | none => s
  | _, _ => s

theorem foldl_installColumn (built : List (JsString × TypedRidColumn))
    (targets : List (JsString × Nat)) (c : Collection) (paths : List JsString) :
    targets.foldl (installColumn built) (c, paths) =
      ({ c with columns := (targets.foldl (installedColumn built) (c.columns, paths)).1 },
        (targets.foldl (installedColumn built) (c.columns, paths)).2) := by
  induction targets generalizing c paths with
  | nil => rfl
  | cons target rest ih =>
      rw [List.foldl_cons, List.foldl_cons, installColumn, installedColumn]
      dsimp only
      cases hcolumn : Assoc.get? c.columns target.1 with
      | none => exact ih c paths
      | some column =>
          cases hsource : Assoc.get? built target.1 with
          | none => exact ih c paths
          | some source =>
              dsimp only
              cases hinstall : column.install source target.2 with
              | none => exact ih c paths
              | some installed => exact ih _ _

/-- What is known of a finished scan, once its job is gone: its builds are its own, and it holds
what is needed of every row. -/
structure Finished (vectorField : Option JsString) (c : Collection)
    (columns : List (JsString × TypedRidColumn)) (registers : JsString → Option Write)
    (built : List (JsString × TypedRidColumn)) (target : JsString × Nat) : Prop where
  wanted : target.1 ∈ c.collectionMeta.columns
  source : ∀ {source column}, Assoc.get? built target.1 = some source →
    Assoc.get? columns target.1 = some column → column.buildId = target.2 →
      SourceOk source ∧ NoScan c target.1 target.2 ∧
        ∀ {id m value}, LiveRow c registers id m value →
          match Assoc.get? column.pending m.rid with
          | some state => HoldsValue state.value? (withoutVector vectorField value) target.1
          | none => HoldsValue (source.valueFor m.rid) (withoutVector vectorField value) target.1

/-- One installation: the column shows the pending values, and the scanned ones elsewhere. -/
theorem installedColumn_sound (h : Sound vectorField c columns dirty registers)
    {built : List (JsString × TypedRidColumn)} {target : JsString × Nat}
    (hfinished : Finished vectorField c columns registers built target) (paths : List JsString) :
    Sound vectorField c (installedColumn built (columns, paths) target).1 dirty registers ∧
      (∀ p, p ≠ target.1 → Assoc.get? (installedColumn built (columns, paths) target).1 p =
        Assoc.get? columns p) ∧
      ∀ p ∈ (installedColumn built (columns, paths) target).2, p ∈ paths ∨ p = target.1 := by
  unfold installedColumn
  dsimp only
  cases hcolumn : Assoc.get? columns target.1 with
  | none => exact ⟨h, fun _ _ => rfl, fun _ hp => .inl hp⟩
  | some column =>
      cases hsource : Assoc.get? built target.1 with
      | none => exact ⟨h, fun _ _ => rfl, fun _ hp => .inl hp⟩
      | some source =>
          dsimp only
          cases hinstall : column.install source target.2 with
          | none => exact ⟨h, fun _ _ => rfl, fun _ hp => .inl hp⟩
          | some installed =>
              have hok := h.rows.columnsOk.get? hcolumn
              obtain ⟨hid, hready, hbuildId, hpending, hpath, hvalueFor⟩ :=
                TypedRidColumn.install_spec hok.pendingNodup hinstall
              obtain ⟨hsourceOk, hfree, hrows⟩ := hfinished.source hsource hcolumn hid.symm
              have hholds : ∀ {id m value}, LiveRow c registers id m value →
                  HoldsValue (installed.valueFor m.rid) (withoutVector vectorField value)
                    target.1 := by
                intro id m value hlive
                have hrow := hrows hlive
                rw [hvalueFor]
                cases hget : Assoc.get? column.pending m.rid with
                | some state => rw [hget] at hrow; exact hrow
                | none => rw [hget] at hrow; exact hrow
              refine ⟨h.setColumn ?_ (fun hlive hclean => ⟨fun hx => ?_, fun hold hsome => ?_⟩)
                (hbuildId.trans hid.symm ▸ hfree), fun p hp => ?_, fun p hp => ?_⟩
              · refine ⟨hpath.trans hok.path_eq, hfinished.wanted, by rw [hready]; decide, ?_,
                  fun {r x} hx => ?_, fun hx _ => ?_⟩
                · rw [hpending]
                  exact List.nodup_nil
                · rw [hvalueFor] at hx
                  cases hget : Assoc.get? column.pending r with
                  | some state => rw [hget] at hx; exact hok.pending hget hx
                  | none => rw [hget] at hx; exact hsourceOk.values hx
                · rw [hpending] at hx
                  cases hx
              · exact hx ▸ hholds hlive
              · -- the old column showed a value, so there is one to show
                obtain rfl := Option.some.inj (hcolumn.symm.trans hold)
                obtain ⟨x, hx⟩ := Option.isSome_iff_exists.mp hsome
                have hlive' := h.rows.live hlive
                rw [hclean] at hlive'
                obtain ⟨y, hy, -⟩ := hlive'.holds (Assoc.mem_of_get?_eq_some hcolumn) hx
                exact (hholds hlive).isSome (by rw [hy]; exact fun h => by cases h)
              · rw [Assoc.get?_set, if_neg (Ne.symm hp)]
              · rcases List.mem_append.mp hp with hp | hp
                · exact .inl hp
                · exact .inr (List.mem_singleton.mp hp)

theorem foldl_installedColumn_sound {built : List (JsString × TypedRidColumn)}
    (targets : List (JsString × Nat)) (hnodup : (Assoc.keys targets).Nodup)
    {columns : List (JsString × TypedRidColumn)} {paths : List JsString}
    (h : Sound vectorField c columns dirty registers)
    (hpaths : ∀ p ∈ paths, p ∈ c.collectionMeta.columns)
    (hfinished : ∀ target ∈ targets, Finished vectorField c columns registers built target) :
    Sound vectorField c (targets.foldl (installedColumn built) (columns, paths)).1 dirty registers ∧
      ∀ p ∈ (targets.foldl (installedColumn built) (columns, paths)).2,
        p ∈ c.collectionMeta.columns := by
  induction targets generalizing columns paths with
  | nil => exact ⟨h, hpaths⟩
  | cons target rest ih =>
      rw [Assoc.keys, List.map_cons, List.nodup_cons] at hnodup
      have htarget := hfinished target List.mem_cons_self
      obtain ⟨hsound, hother, hnames⟩ := installedColumn_sound h htarget paths
      rw [List.foldl_cons]
      refine ih hnodup.2 hsound (fun p hp => ?_) fun t ht => ?_
      · rcases hnames p hp with hp | rfl
        · exact hpaths p hp
        · exact htarget.wanted
      · have hne : t.1 ≠ target.1 := fun heq => hnodup.1 (heq ▸ List.mem_map_of_mem ht)
        have hrest := hfinished t (List.mem_cons_of_mem _ ht)
        refine ⟨hrest.wanted, fun hsource hcolumn hid => ?_⟩
        exact hrest.source hsource ((hother t.1 hne).symm.trans hcolumn) hid

/-- A scan that has reached the end installs its columns. -/
theorem installColumns_inv (h : Inv vectorField c registers) {id : Nat}
    {targets : List (JsString × Nat)} {built : List (JsString × TypedRidColumn)} {scanned : Nat}
    (hjob : Assoc.get? c.jobs id = some (.columns targets built scanned))
    (hend : c.objects[scanned]? = none) :
    let s := targets.foldl (installColumn built) (c, [])
    Inv vectorField (if s.2 = [] then s.1.endJob id else s.1.setJob id (.strip s.2 0)) registers := by
  have hscans := h.sound.scans
  have hended := h.endJob id
  have hnoJob : ∀ {job targets' built' scanned'}, Assoc.get? (c.endJob id).jobs job =
      some (.columns targets' built' scanned') →
      job ≠ id ∧ Assoc.get? c.jobs job = some (.columns targets' built' scanned') := by
    intro job targets' built' scanned' hget
    change Assoc.get? (Assoc.erase c.jobs id) job = _ at hget
    rw [Assoc.get?_erase] at hget
    split_ifs at hget with heq
    exact ⟨Ne.symm heq, hget⟩
  have hfinished : ∀ target ∈ targets,
      Finished vectorField (c.endJob id) c.columns registers built target := by
    intro target htarget
    obtain ⟨hone, hwanted, source, hsource, hok, hscan⟩ := hscans.scans hjob htarget
    refine ⟨hwanted, fun {source' column} hsource' hcolumn hid => ?_⟩
    obtain rfl := Option.some.inj (hsource.symm.trans hsource')
    obtain ⟨-, hrows⟩ := hscan column hcolumn hid
    refine ⟨hok, fun job targets' built' scanned' hget hmem => ?_, fun {i m value} hlive => ?_⟩
    · obtain ⟨hne, hold⟩ := hnoJob hget
      exact hne (hscans.exclusive hold hmem hjob htarget hcolumn hid)
    · have hlive' : LiveRow c registers i m value := ⟨hlive.entry, hlive.newest⟩
      obtain ⟨n, hlt, hi⟩ := List.mem_iff_getElem.mp (List.mem_map_of_mem (f := Prod.fst)
        (Assoc.mem_of_get?_eq_some hlive'.entry))
      have hkey : (Assoc.keys c.objects)[n]? = some i := List.getElem?_eq_some_iff.mpr ⟨hlt, hi⟩
      have hrow := hrows hkey hlive'
      cases hpending : Assoc.get? column.pending m.rid with
      | some state => rw [hpending] at hrow; exact hrow
      | none =>
          rw [hpending] at hrow
          have hlength : c.objects.length ≤ scanned := List.getElem?_eq_none_iff.mp hend
          rw [List.length_map] at hlt
          exact hrow (hlt.trans_le hlength)
  obtain ⟨hsound, hwanted⟩ := foldl_installedColumn_sound targets (hscans.targetsNodup hjob)
    hended.sound (fun p (hp : p ∈ []) => by cases hp) hfinished
  dsimp only
  rw [foldl_installColumn]
  dsimp only
  revert hsound hwanted
  change Sound vectorField (c.endJob id) (targets.foldl (installedColumn built) (c.columns, [])).1
    c.indexDirtyRids.has registers →
      (∀ p ∈ (targets.foldl (installedColumn built) (c.columns, [])).2,
        p ∈ c.collectionMeta.columns) → _
  generalize targets.foldl (installedColumn built) (c.columns, []) = s
  intro hsound hwanted
  have hcolumns : Inv vectorField { c.endJob id with columns := s.1 } registers :=
    ⟨hsound.of_data ⟨rfl, rfl, rfl, rfl, rfl, rfl, rfl, rfl⟩ (hsound.scans.congr rfl rfl rfl rfl),
      h.count.congr rfl rfl, h.queue.congr rfl⟩
  split_ifs
  · exact hcolumns.sameReads ⟨⟨rfl, rfl, rfl, rfl, rfl, rfl, rfl, rfl⟩, rfl, rfl⟩
      (hsound.scans.congr rfl rfl rfl rfl)
  · have hkeys := keys_setJob hjob (.strip s.2 0)
    refine hcolumns.sameReads ⟨⟨rfl, rfl, rfl, rfl, rfl, rfl, rfl, rfl⟩, rfl, rfl⟩ ?_
    refine hcolumns.sound.scans.of_jobs rfl rfl ?_ ?_ fun {k job} hget => ?_
    · change (Assoc.keys (c.setJob id (.strip s.2 0)).jobs).Nodup
      rw [hkeys]
      exact hscans.jobsNodup
    · intro k hk
      change k ∈ Assoc.keys (c.setJob id (.strip s.2 0)).jobs at hk
      rw [hkeys] at hk
      exact hscans.jobsFresh hk
    · change Assoc.get? (Assoc.set c.jobs id (.strip s.2 0)) k = _ at hget
      rw [Assoc.get?_set] at hget
      split_ifs at hget with heq
      · exact .inr (Option.some.inj hget ▸ hwanted)
      · left
        change Assoc.get? (Assoc.erase c.jobs id) k = _
        rw [Assoc.get?_erase, if_neg heq]
        exact hget

/-! ## Rewriting a row -/

theorem Sound.sameButRow (h : Sound vectorField c columns dirty registers) {id : JsString}
    {m : RowMeta} (hm : Assoc.get? c.objects id = some m) (hd : SameButRow c id m.rid d)
    {columns' : List (JsString × TypedRidColumn)} {dirty' : Nat → Bool}
    (hcolumns : ColumnsOk c.collectionMeta columns')
    (helsewhere : ∀ {r}, r ≠ m.rid → cellsAt columns' r = cellsAt columns r ∧ dirty' r = dirty r)
    (hhere : ∀ {value}, LiveRow c registers id m value →
      LiveOk (d.base id m.rid) columns' (dirty' m.rid) m.rid (withoutVector vectorField value))
    (hscans : ScansOk vectorField c columns' registers) :
    Sound vectorField d columns' dirty' registers where
  rows := h.rows.sameButRow hm hd hcolumns helsewhere hhere
  scans := hscans.congr hd.objects hd.same.collectionMeta hd.same.jobs hd.same.nextJob
  absent := fun hnone => hd.objects ▸ h.absent hnone
  owners := h.owners.congr hd.objects hd.idByRid

/-- A row may be stripped: of what it shows under the stripped paths, the columns hold a value, and
it is not dirty. -/
def SafeStrip (c : Collection) (paths : List JsString) (rid : Nat) : Prop :=
  ∀ object, c.readRid rid = some object → ∀ p ∈ paths, lookup (.obj object) (pathParts p) ≠ none →
    c.indexDirtyRids.has rid = false ∧
      ∃ column, Assoc.get? c.columns p = some column ∧ column.hasValue rid = true

theorem stripRow_inv (h : Inv vectorField c registers) {rid : Nat} {object : Fields}
    (hread : c.readRid rid = some object) {paths : List JsString}
    (hpaths : ∀ p ∈ paths, p ∈ c.collectionMeta.columns) (hsafe : SafeStrip c paths rid) :
    Inv vectorField (c.rewriteBaseValueForColumns rid object (some paths)) registers := by
  obtain ⟨id, m, value, hlive, rfl, hid, hwf, hshows, hvalue⟩ := h.sound.readRid hread
  have hframe := rewrite_frame hid object (some paths)
  have hcolumns := h.sound.rows.columnsOk
  have hshown : ∀ p ∈ paths, lookup (.obj (withoutVector vectorField value)) (pathParts p) ≠ none →
      c.indexDirtyRids.has m.rid = false ∧
        ∃ column, Assoc.get? c.columns p = some column ∧ column.hasValue m.rid = true := by
    intro p hp hsome
    refine hsafe object hread p hp fun hnone => hsome ?_
    exact (lookup_none_of_view (hvalue.columns p (hpaths p hp)).plain hshows.view).mp hnone
  have hsound : Sound vectorField (c.rewriteBaseValueForColumns m.rid object (some paths)) c.columns
      c.indexDirtyRids.has registers := by
    refine h.sound.sameButRow hlive.entry hframe hcolumns (fun _ => ⟨rfl, rfl⟩)
      (fun {value'} hlive' => ?_) h.sound.scans
    obtain ⟨w, hw, hwvalue⟩ := hlive.newest
    obtain ⟨w', hw', hwvalue'⟩ := hlive'.newest
    obtain rfl := Option.some.inj (hw'.symm.trans hw)
    obtain rfl := Option.some.inj (hwvalue'.symm.trans hwvalue)
    refine rewrite_liveOk hid hwf hshows hvalue hcolumns hpaths ?_ ?_ ?_
    · intro hdirty p hp
      by_contra hsome
      cases hdirty.symm.trans (hshown p hp hsome).1
    · intro _ p hp hsome
      obtain ⟨-, column, hget, hhas⟩ := hshown p hp hsome
      exact ⟨column, Assoc.mem_of_get?_eq_some hget, hhas⟩
    · intro hclean path column x hmem hx
      have hok := h.sound.rows.live hlive
      rw [hclean] at hok
      exact hok.holds hmem hx
  refine ⟨?_, h.count.congr hframe.liveCount hframe.objects, h.queue.congr hframe.same.indexDirtyRids⟩
  rw [hframe.same.columns, hframe.same.indexDirtyRids]
  exact hsound

/-! ## The catch-up -/

theorem HoldsValue.of_view {kept : Option Json} {object value : Fields} {path : JsString}
    (h : HoldsValue kept object path) (hpath : PlainPath path)
    (hview : ∀ q, ApartFromId q → (Json.obj object).at q = (Json.obj value).at q) :
    HoldsValue kept value path := by
  cases kept with
  | none => exact (lookup_none_of_view hpath hview).mp h
  | some x =>
      obtain ⟨y, hy, hat⟩ := h
      cases hvalue : lookup (.obj value) (pathParts path) with
      | none =>
          rw [(lookup_none_of_view hpath hview).mpr hvalue] at hy
          cases hy
      | some z =>
          refine ⟨z, hvalue, fun q => (hat q).trans ?_⟩
          have hq := hview (pathParts path ++ q) (hpath.apart (Or.inl (List.prefix_append _ _)))
          rwa [at_append hy, at_append hvalue] at hq

/-- The columns hear of a row that was not written. -/
theorem ScansOk.refresh (h : ScansOk vectorField c columns registers)
    (hcolumns : ColumnsOk c.collectionMeta columns) (rid : Nat) (after : Option Fields)
    (hafter : ∀ {id m value}, LiveRow c registers id m value → m.rid = rid →
      ∀ path ∈ c.collectionMeta.columns, HoldsValue
        (after.bind fun fields => getPathValue (.obj fields) path)
        (withoutVector vectorField value) path) :
    ScansOk vectorField c (updateColumns false columns rid after) registers := by
  refine { h with scans := ?_, exclusive := ?_ }
  · intro job targets built scanned path buildId hget hmem
    obtain ⟨hone, hwanted, source, hsource, hok, hscan⟩ := h.scans hget hmem
    refine ⟨hone, hwanted, source, hsource, hok, fun column hcolumn hid => ?_⟩
    rw [get?_updateColumns, Option.map_eq_some_iff] at hcolumn
    obtain ⟨old, hold, rfl⟩ := hcolumn
    obtain ⟨hstatus, hbuildId, -⟩ := columnUpdate_frame false old rid after
    obtain ⟨hbuilding, hrows⟩ := hscan old hold (hbuildId ▸ hid)
    refine ⟨hstatus.trans hbuilding, fun {i id' m' value} hi hlive => ?_⟩
    rw [pending_columnUpdate hbuilding, Assoc.get?_set]
    by_cases hrid : rid = m'.rid
    · rw [if_pos hrid]
      dsimp only
      rw [value?_keptState, (hcolumns.get? hold).path_eq]
      exact hafter hlive hrid.symm path hwanted
    · rw [if_neg hrid]
      exact hrows hi hlive
  · intro job job' targets targets' built built' scanned scanned' path buildId column h1 hm1 h2 hm2
      hcolumn hid
    rw [get?_updateColumns, Option.map_eq_some_iff] at hcolumn
    obtain ⟨old, hold, rfl⟩ := hcolumn
    exact h.exclusive h1 hm1 h2 hm2 hold ((columnUpdate_frame false old rid after).2.1 ▸ hid)

theorem has_delete (q : RidBitmapQueue) (rid r : Nat) :
    (q.delete rid).has r = (q.has r && decide (r ≠ rid)) := by
  unfold RidBitmapQueue.delete RidBitmapQueue.compactQueue RidBitmapQueue.has
  dsimp only
  split_ifs with hempty
  · have hnot : ¬ (r ∈ q.bits ∧ r ≠ rid) := by
      rw [← mem_ridSetDelete, hempty]
      exact List.not_mem_nil
    simpa using hnot
  · simp [ridSetDelete]

/-- A row may be caught up with: no column that is being built shows another value of it. -/
def SafeCatchUp (c : Collection) (rid : Nat) : Prop :=
  ∀ object, c.readRid rid = some object → FitsBuilding c.columns rid object

theorem mapValues_columnAfter (columns : List (JsString × TypedRidColumn)) (rid : Nat)
    (after : Option Fields) :
    Assoc.mapValues (fun _ column => columnAfter column rid after) columns =
      updateColumns false columns rid after := by
  unfold updateColumns columnUpdate
  simp

theorem rewrite_none (c : Collection) (rid : Nat) (object : Fields) :
    c.rewriteBaseValueForColumns rid object none =
      c.rewriteBaseValueForColumns rid object (some (readyPaths c.columns)) := rfl

/-- `_refreshReadyIndexesForRid` without the indexes. -/
theorem refreshReadyIndexesForRid_sound
    (h : Sound vectorField c c.columns c.indexDirtyRids.has registers) {rid : Nat}
    (hsafe : SafeCatchUp c rid) :
    Sound vectorField (c.refreshReadyIndexesForRid rid)
      (c.refreshReadyIndexesForRid rid).columns
      (fun r => c.indexDirtyRids.has r && decide (r ≠ rid)) registers ∧
      (c.refreshReadyIndexesForRid rid).indexDirtyRids = c.indexDirtyRids ∧
      (c.CountOk → (c.refreshReadyIndexesForRid rid).CountOk) := by
  have hcolumns := h.rows.columnsOk
  have helsewhere : ∀ {after : Option Fields} {r}, r ≠ rid →
      cellsAt (updateColumns false c.columns rid after) r = cellsAt c.columns r ∧
        (c.indexDirtyRids.has r && decide (r ≠ rid)) = c.indexDirtyRids.has r := fun hr =>
    ⟨cellsAt_updateColumns_ne _ _ _ _ hr, by simp [hr]⟩
  unfold refreshReadyIndexesForRid
  dsimp only
  rw [mapValues_columnAfter]
  cases hread : c.readRid rid with
  | none =>
      -- the row has been deleted since it was queued
      have hnone : ∀ {id m value}, LiveRow c registers id m value → m.rid ≠ rid := by
        intro id m value hlive heq
        obtain ⟨object, hobject, -⟩ := h.readRid_live hlive
        rw [heq] at hobject
        cases hread.symm.trans hobject
      have hcolumns' : ColumnsOk c.collectionMeta (updateColumns false c.columns rid none) :=
        hcolumns.update false rid fun _ hfields => by cases hfields
      have hsound : Sound vectorField c (updateColumns false c.columns rid none)
          (fun r => c.indexDirtyRids.has r && decide (r ≠ rid)) registers := by
        refine ⟨{ h.rows with columnsOk := hcolumns', live := fun hlive => ?_ },
          h.scans.refresh hcolumns rid none fun hlive hrid => absurd hrid (hnone hlive), h.absent,
          h.owners⟩
        obtain ⟨hcells, hdirty⟩ := @helsewhere none _ (hnone hlive)
        rw [hdirty]
        exact (h.rows.live hlive).of_cells hcells
      exact ⟨hsound.of_data ⟨rfl, rfl, rfl, rfl, rfl, rfl, rfl, rfl⟩
        (hsound.scans.congr rfl rfl rfl rfl), rfl, fun hcount => hcount.congr rfl rfl⟩
  | some object =>
      obtain ⟨id, m, value, hlive, rfl, hid, hwf, hshows, hvalue⟩ := h.readRid hread
      dsimp only
      set columns' := updateColumns false c.columns m.rid (some object) with hcolumnsDef
      generalize Assoc.mapValues _ c.indexes = indexes
      set heard : Collection := { c with indexes := indexes, columns := columns' } with hheard
      have hcolumns' : ColumnsOk c.collectionMeta columns' := by
        refine hcolumns.update false m.rid fun fields hfields path hpath x hx => ?_
        obtain rfl := Option.some.inj hfields
        exact wellFormed_getPathValue hwf ((hvalue.columns path hpath).of_view hshows.view) hx
      have hholds : ∀ {path column}, (path, column) ∈ c.columns → column.status ≠ .building →
          HoldsValue ((columnUpdate false column m.rid (some object)).valueFor m.rid)
            (withoutVector vectorField value) path := fun hmem hready =>
        holds_updated hcolumns hvalue hshows.view hmem hready m.rid
      have hsoundHeard : Sound vectorField heard c.columns c.indexDirtyRids.has registers :=
        h.of_data ⟨rfl, rfl, rfl, rfl, rfl, rfl, rfl, rfl⟩ (h.scans.congr rfl rfl rfl rfl)
      -- the columns have heard of the object before its base value is rewritten
      have hframe := @rewrite_frame heard id m.rid hid object none
      rw [rewrite_none] at hframe ⊢
      refine ⟨?_, hframe.same.indexDirtyRids, fun hcount =>
        hcount.congr hframe.liveCount hframe.objects⟩
      rw [hframe.same.columns]
      refine hsoundHeard.sameButRow hlive.entry hframe hcolumns' (fun hr => helsewhere hr)
        (fun {value'} hlive' => ?_) ?_
      · obtain ⟨w, hw, hwvalue⟩ := hlive.newest
        obtain ⟨w', hw', hwvalue'⟩ := hlive'.newest
        obtain rfl := Option.some.inj (hw'.symm.trans hw)
        obtain rfl := Option.some.inj (hwvalue'.symm.trans hwvalue)
        refine @rewrite_liveOk heard _ _ _ hid _ _ hwf hshows hvalue hcolumns' _ ?_ _ ?_ ?_ ?_
        · intro p hp
          obtain ⟨column, hmem, -⟩ := mem_readyPaths.mp hp
          exact (hcolumns'.each hmem).wanted
        · exact fun hdirty => absurd hdirty (by simp)
        · intro _ p hp hsome
          obtain ⟨column, hmem, hready⟩ := mem_readyPaths.mp hp
          obtain ⟨old, hold, rfl⟩ := mem_updateColumns.mp hmem
          have hstatus := (columnUpdate_frame false old m.rid (some object)).1
          refine ⟨_, hmem, (hholds hold ?_).isSome hsome⟩
          rw [← hstatus, hready]
          decide
        · intro _ path column x hmem hx
          obtain ⟨old, hold, rfl⟩ := mem_updateColumns.mp hmem
          by_cases hbuilding : old.status = .building
          · -- the installed value of a column being built is the one it had
            rw [valueFor_columnUpdate, if_neg fun h => h.1 hbuilding] at hx
            exact (hsafe object hread path old x hold hbuilding hx).of_view
              (hvalue.columns path (hcolumns.each hold).wanted).plain hshows.view
          · exact hx ▸ hholds hold hbuilding
      · refine hsoundHeard.scans.refresh hcolumns m.rid (some object) ?_
        intro id' m' value' hlive' hrid path hpath
        have hsame : id' = id := by
          by_contra hne
          exact h.rows.rids.rid_ne hlive'.entry hlive.entry hne hrid
        subst hsame
        obtain ⟨w, hw, hwvalue⟩ := hlive.newest
        obtain ⟨w', hw', hwvalue'⟩ := hlive'.newest
        obtain rfl := Option.some.inj (hw'.symm.trans hw)
        obtain rfl := Option.some.inj (hwvalue'.symm.trans hwvalue)
        exact holdsValue_getPathValue (hvalue.columns path hpath) hshows.view

/-- Every row of a catch-up batch may be caught up with when its turn comes. -/
def SafeCatchUps : Collection → List Nat → Prop
  | _, [] => True
  | c, rid :: rest => SafeCatchUp c rid ∧ SafeCatchUps (c.catchUpRow rid) rest

theorem catchUpRow_sound (h : Sound vectorField c c.columns c.indexDirtyRids.has registers)
    {rid : Nat} (hsafe : SafeCatchUp c rid) :
    Sound vectorField (c.catchUpRow rid) (c.catchUpRow rid).columns
        (c.catchUpRow rid).indexDirtyRids.has registers ∧
      (c.catchUpRow rid).indexDirtyRids = c.indexDirtyRids.delete rid ∧
      (c.CountOk → (c.catchUpRow rid).CountOk) := by
  obtain ⟨hsound, hdirty, hcount⟩ := refreshReadyIndexesForRid_sound h hsafe
  have hqueue : (c.catchUpRow rid).indexDirtyRids = c.indexDirtyRids.delete rid := by
    rw [← hdirty]
    rfl
  have hhas : (c.catchUpRow rid).indexDirtyRids.has =
      fun r => c.indexDirtyRids.has r && decide (r ≠ rid) := by
    funext r
    rw [hqueue, has_delete]
  refine ⟨?_, hqueue, fun h => (hcount h).congr rfl rfl⟩
  rw [hhas]
  exact hsound.of_data ⟨rfl, rfl, rfl, rfl, rfl, rfl, rfl, rfl⟩ (hsound.scans.congr rfl rfl rfl rfl)

/-- Every dirty row is in the queue, or among the rows of the batch that are still to come. -/
def QueueOr (c : Collection) (batch : List Nat) : Prop :=
  ∀ r, c.indexDirtyRids.has r = true → r ∈ batch ∨ r ∈ c.indexDirtyRids.queue

theorem queue_delete (q : RidBitmapQueue) {rid r : Nat} (hhas : (q.delete rid).has r = true)
    (hmem : r ∈ q.queue) : r ∈ (q.delete rid).queue := by
  unfold RidBitmapQueue.delete RidBitmapQueue.compactQueue RidBitmapQueue.has at *
  dsimp only at *
  split_ifs at * with hempty
  · simp at hhas
  · exact hmem

theorem foldl_catchUpRow_sound (batch : List Nat) {c : Collection}
    (h : Sound vectorField c c.columns c.indexDirtyRids.has registers) (hcount : c.CountOk)
    (hqueue : QueueOr c batch) (hsafe : SafeCatchUps c batch) :
    Inv vectorField (batch.foldl catchUpRow c) registers := by
  induction batch generalizing c with
  | nil => exact ⟨h, hcount, fun r hr => (hqueue r hr).resolve_left List.not_mem_nil⟩
  | cons rid rest ih =>
      obtain ⟨hsound, hdelete, hcounts⟩ := catchUpRow_sound h hsafe.1
      refine ih hsound (hcounts hcount) (fun r hr => ?_) hsafe.2
      rw [hdelete] at hr ⊢
      have hboth := hr
      rw [has_delete, Bool.and_eq_true, decide_eq_true_iff] at hboth
      rcases hqueue r hboth.1 with hmem | hmem
      · exact .inl ((List.mem_cons.mp hmem).resolve_left hboth.2)
      · exact .inr (queue_delete _ hr hmem)

/-- What is taken from the queue, and what stays. -/
theorem takeFrom_spec (bits : RidSet) (limit : Nat) (queue : List Nat) {r : Nat} (hr : r ∈ bits)
    (hmem : r ∈ queue) :
    r ∈ (RidBitmapQueue.takeFrom bits limit queue).1 ∨
      r ∈ (RidBitmapQueue.takeFrom bits limit queue).2 := by
  induction limit, queue using RidBitmapQueue.takeFrom.induct bits with
  | case1 limit => cases hmem
  | case2 queue hne =>
      cases queue with
      | nil => exact absurd rfl hne
      | cons rid queue =>
          rw [RidBitmapQueue.takeFrom.eq_2 bits (rid :: queue) hne]
          exact .inr hmem
  | case3 limit rid queue hrid ih =>
      rw [RidBitmapQueue.takeFrom, if_pos hrid]
      rcases List.mem_cons.mp hmem with rfl | hmem
      · exact .inl List.mem_cons_self
      · exact (ih hmem).imp (List.mem_cons_of_mem _) id
  | case4 limit rid queue hrid ih =>
      rw [RidBitmapQueue.takeFrom, if_neg hrid]
      rcases List.mem_cons.mp hmem with rfl | hmem
      · exact absurd hr hrid
      · exact ih hmem

theorem takeFrom_nonempty (bits : RidSet) (limit : Nat) (queue : List Nat) {r : Nat}
    (hr : r ∈ bits) (hmem : r ∈ queue) :
    (RidBitmapQueue.takeFrom bits (limit + 1) queue).1 ≠ [] := by
  induction queue with
  | nil => cases hmem
  | cons rid queue ih =>
      rw [RidBitmapQueue.takeFrom]
      split_ifs with hrid
      · exact List.cons_ne_nil _ _
      · rcases List.mem_cons.mp hmem with rfl | hmem
        · exact absurd hr hrid
        · exact ih hmem

theorem endCatchup_inv (h : Inv vectorField c registers) (id : Nat) :
    Inv vectorField (c.endCatchup id) registers := by
  have hschedule : ∀ {d : Collection}, Inv vectorField d registers →
      Inv vectorField d.scheduleDirtyIndexCatchup registers := by
    intro d hd
    obtain ⟨hcolumns, hdirty, hcount⟩ := d.scheduleDirtyIndexCatchup_heard
    refine ⟨?_, hcount hd.count, hd.queue.congr hdirty⟩
    rw [hcolumns, hdirty]
    exact hd.sound.scheduleDirtyIndexCatchup
  have hended := h.endJob id
  unfold endCatchup
  dsimp only
  split_ifs
  · exact hschedule (hended.sameReads ⟨⟨rfl, rfl, rfl, rfl, rfl, rfl, rfl, rfl⟩, rfl, rfl⟩
      (hended.sound.scans.congr rfl rfl rfl rfl))
  · exact hschedule hended

/-- The condition on a catch-up batch. -/
def SafeCatchUpBatch (c : Collection) : Prop :=
  let taken := c.indexDirtyRids.take indexDirtyBuildBatchSize
  SafeCatchUps { c with indexDirtyRids := taken.2 } taken.1

theorem stepCatchup_inv (h : Inv vectorField c registers) (id : Nat) (hsafe : SafeCatchUpBatch c) :
    Inv vectorField (c.stepCatchup id) registers := by
  unfold stepCatchup
  split_ifs with hbits
  · exact endCatchup_inv h id
  · unfold SafeCatchUpBatch at hsafe
    have htake : c.indexDirtyRids.take indexDirtyBuildBatchSize =
        ((RidBitmapQueue.takeFrom c.indexDirtyRids.bits indexDirtyBuildBatchSize
            c.indexDirtyRids.queue).1,
          ⟨c.indexDirtyRids.bits, (RidBitmapQueue.takeFrom c.indexDirtyRids.bits
            indexDirtyBuildBatchSize c.indexDirtyRids.queue).2⟩) := by
      unfold RidBitmapQueue.take RidBitmapQueue.compactQueue
      dsimp only
      rw [if_neg hbits]
    rw [htake] at hsafe ⊢
    dsimp only at hsafe ⊢
    obtain ⟨r, hr⟩ := List.exists_mem_of_ne_nil _ hbits
    have hnonempty : (RidBitmapQueue.takeFrom c.indexDirtyRids.bits indexDirtyBuildBatchSize
        c.indexDirtyRids.queue).1 ≠ [] :=
      takeFrom_nonempty _ 4095 _ hr (h.queue r (decide_eq_true hr))
    rw [if_neg hnonempty]
    refine foldl_catchUpRow_sound _ ?_ (h.count.congr rfl rfl) (fun r hr => ?_) hsafe
    · exact h.sound.of_data ⟨rfl, rfl, rfl, rfl, rfl, rfl, rfl, rfl⟩
        (h.sound.scans.congr rfl rfl rfl rfl)
    · exact takeFrom_spec _ _ _ (of_decide_eq_true hr) (h.queue r hr)

/-! ## All slices -/

theorem installFieldIndex_frame (built : List (JsString × FieldIndex))
    (targets : List (JsString × Nat)) (c : Collection) :
    SameReads c (targets.foldl (installFieldIndex built) c) ∧
      (targets.foldl (installFieldIndex built) c).jobs = c.jobs ∧
      (targets.foldl (installFieldIndex built) c).nextJob = c.nextJob := by
  induction targets generalizing c with
  | nil => exact ⟨.refl c, rfl, rfl⟩
  | cons target rest ih =>
      have hstep : SameReads c (installFieldIndex built c target) ∧
          (installFieldIndex built c target).jobs = c.jobs ∧
          (installFieldIndex built c target).nextJob = c.nextJob := by
        unfold installFieldIndex
        split
        · split_ifs
          · exact ⟨.refl c, rfl, rfl⟩
          · exact ⟨⟨⟨rfl, rfl, rfl, rfl, rfl, rfl, rfl, rfl⟩, rfl, rfl⟩, rfl, rfl⟩
        · exact ⟨.refl c, rfl, rfl⟩
      obtain ⟨hsame, hjobs, hnext⟩ := ih (installFieldIndex built c target)
      exact ⟨hstep.1.trans hsame, hjobs.trans hstep.2.1, hnext.trans hstep.2.2⟩

/-- The condition on a slice of a job. -/
def SafeSlice (c : Collection) (id : Nat) : Prop :=
  match Assoc.get? c.jobs id with
  | some (.strip paths scanned) => ∀ entry, c.objects[scanned]? = some entry →
      entry.2.deleted.isSome = false → SafeStrip c paths entry.2.rid
  | some .catchup => SafeCatchUpBatch c
  | _ => True

theorem stepJob_inv (h : Inv vectorField c registers) (id : Nat) (hsafe : SafeSlice c id) :
    Inv vectorField (c.stepJob id) registers := by
  unfold SafeSlice at hsafe
  unfold stepJob
  cases hjob : Assoc.get? c.jobs id with
  | none => exact h
  | some job =>
      rw [hjob] at hsafe
      cases job with
      | columns targets built scanned =>
          dsimp only
          cases hentry : c.objects[scanned]? with
          | some entry =>
              exact h.sameReads ⟨⟨rfl, rfl, rfl, rfl, rfl, rfl, rfl, rfl⟩, rfl, rfl⟩
                (ScansOk.scanRow h.sound hjob hentry)
          | none => exact installColumns_inv h hjob hentry
      | strip paths scanned =>
          have hwanted := h.sound.scans.strips hjob
          dsimp only at hsafe ⊢
          cases hentry : c.objects[scanned]? with
          | none => exact h.endJob id
          | some entry =>
              dsimp only
              split_ifs with hdeleted
              · exact h.setPassive hjob hwanted
              · cases hread : c.readRid entry.2.rid with
                | none => exact h.setPassive hjob hwanted
                | some object =>
                    have hstripped := stripRow_inv h hread hwanted
                      (hsafe entry hentry (by simpa using hdeleted))
                    obtain ⟨i, m, value, hlive, hrid, hid, -⟩ := h.sound.readRid hread
                    have hframe := rewrite_frame hid object (some paths)
                    have hsameJob := hframe.same.jobs ▸ hjob
                    exact hstripped.setPassive hsameJob (hframe.same.collectionMeta ▸ hwanted)
      | fields targets built scanned =>
          dsimp only
          cases c.objects[scanned]? with
          | some entry => exact h.setPassive hjob trivial
          | none =>
              obtain ⟨hsame, hjobs, hnext⟩ := installFieldIndex_frame built targets c
              exact (h.sameReads hsame (h.sound.scans.sameReads hsame hjobs hnext)).endJob id
      | catchup => exact stepCatchup_inv h id hsafe

end Collection
end ObjyDb
