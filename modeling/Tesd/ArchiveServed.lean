import Tesd.ArchiveKept

/-!
# Statistics that are asked for

A capture whose statistics get into their file is remembered: until some request writes to that
file, asking for the status gets the numbers of the reply to the capture, whatever else is captured
and however often the server is started again.
-/

namespace Tesd

open LittleEndian Posix FileSystem Records

/-! ## The record of the statistics -/

/-- The counters as they fit into eight bytes each. -/
def Stats.wrapped (st : Stats) : Stats :=
  ⟨st.ticks % 2 ^ 64, st.events % 2 ^ 64, st.traces % 2 ^ 64, st.hists % 2 ^ 64,
    st.frames % 2 ^ 64, st.framesLost % 2 ^ 64, st.framesDropped % 2 ^ 64, st.errors % 2 ^ 64⟩

/-- The counters in the order in which they lie in memory. -/
def Stats.counters (st : Stats) : List ℕ :=
  [st.ticks, st.events, st.traces, st.hists, st.frames, st.framesLost, st.framesDropped, st.errors]

theorem Stats.length_bytes (st : Stats) : st.bytes.length = STAT_LEN := by
  simp [Stats.bytes, STAT_LEN]

theorem Stats.bytes_eq (st : Stats) : st.bytes = st.counters.flatMap (leBytes 8) := by
  simp only [bytes, counters, List.flatMap_cons, List.flatMap_nil, List.append_assoc,
    List.append_nil]

/-- What is written is read again. -/
theorem Stats.ofBytes_bytes (st : Stats) : Stats.ofBytes st.bytes = st.wrapped := by
  have field : ∀ (k : ℕ) (hk : k < 8),
      ofLe ((st.bytes.drop (8 * k)).take 8) = (st.counters.get ⟨k, hk⟩) % 2 ^ 64 := by
    intro k hk
    rw [bytes_eq, take_drop_flatMap (fun x => length_leBytes 8 x) st.counters hk, ofLe_leBytes]
    rfl
  unfold Stats.ofBytes
  dsimp only
  rw [field 0 (by decide), field 1 (by decide), field 2 (by decide), field 3 (by decide),
    field 4 (by decide), field 5 (by decide), field 6 (by decide), field 7 (by decide)]
  rfl

namespace CapData

variable {w : CapWorld} {req : CapRequest} {d : CapData} {fs fs₁ : FileSystem} {stat hdf5 : CStr}
  {p : Path} {data : List UInt8}

/-! ## Asking for the status -/

/-- A valid query whose files are found is answered by reading the statistics. -/
theorem taskCapReqHn_query (queries : req.Queries w) (found : req.Found w fs fs₁ stat hdf5)
    (d : CapData) : taskCapReqHn w req d fs =
      some (((d.dbgAssert !d.job.core.recording).queried req stat hdf5).query w fs₁) := by
  unfold taskCapReqHn
  dsimp only
  rw [isReqValid_of_queries _ queries]
  dsimp only
  rw [constructFilenames_of_found _ found]
  rfl

/-- The reply to a query without a conversion. -/
theorem query_reply (status : d.job.core.noconvert = true) (w : CapWorld) (fs : FileSystem) :
    (d.query w fs).reply = some
      (if (d.statsGot w fs).map List.length = some STAT_LEN then
        statsReply .ok (statsOver (d.statsGot w fs) d.job.core.st)
      else errReply .efail) := by
  unfold query
  rw [if_pos status]
  dsimp only
  rw [if_neg (fun h => h rfl), statsRead_eq]
  by_cases hgot : (d.statsGot w fs).map List.length = some STAT_LEN
  · rw [if_pos hgot, if_pos hgot]
    rfl
  · rw [if_neg hgot, if_neg hgot]
    rfl

/-- The name that a query finds is that of a file, which it can look up. -/
theorem resolves_of_found (found : req.Found w fs fs₁ stat hdf5) :
    fs.Keeps fs₁ ∧
      ∃ p, stat = spell p ∧ fs.Real w.rights p ∧ fs₁.resolve w.rights stat = .ok p := by
  obtain ⟨fs₀, hstat, hhdf5⟩ := found.paths
  have hnot : ¬ Creates w req.statName true fs := fun creates => by cases creates.may
  rcases canonicalizePath_of_not_creates hnot with hnull | ⟨-, s, hpath, heq⟩
  · rw [hnull] at hstat
    cases hstat
  · rw [heq] at hstat
    obtain ⟨hinside, rfl⟩ := Prod.mk.inj hstat
    obtain ⟨rfl, hroot⟩ := eq_of_insideRoot hinside
    obtain ⟨p, hresolve, rfl⟩ := realpath_ok hpath
    have hp : p ≠ [] := ne_nil_of_insideRoot (by rwa [List.append_nil]) (Or.inr rfl)
    have hkeeps := keeps_canonicalizePath w req.hdf5Name false fs
    rw [hhdf5] at hkeeps
    have hreal := real_of_resolve hresolve
    refine ⟨hkeeps, p, if_neg hp, hreal, ?_⟩
    rw [render, if_neg hp, resolve_spell (hkeeps.real hreal)]

/-- Two files of the same name are the same. -/
theorem eq_of_spell {q : Path} {m n : Node} (hp : fs.node p = some m) (hq : fs.node q = some n)
    (h : spell p = spell q) : p = q :=
  spell_injective (fun x hx => (legal_of_node hp x hx).slash)
    (fun x hx => (legal_of_node hq x hx).slash) h

/-- What the query gets of a file that it may read. -/
theorem statsGot_of_found (found : req.Found w fs fs₁ (spell p) hdf5)
    (file : fs.node p = some (.file data)) (may : w.rights.read p = true) (ok : w.readOk = true)
    (d : CapData) : (d.queried req (spell p) hdf5).statsGot w fs₁ = some (data.take STAT_LEN) := by
  obtain ⟨hkeeps, q, hspell, hreal, hresolve⟩ := resolves_of_found found
  obtain ⟨n, hn, -⟩ := hreal.node
  obtain rfl := eq_of_spell file hn hspell
  have hname : (d.queried req (spell p) hdf5).statfilename = spell p := rfl
  rw [statsGot, hname, openRead, hresolve]
  dsimp only
  rw [if_neg (by simp [may]), hkeeps p _ file]
  exact if_pos ok

/-- The record that a file holds is what a query for the status replies. -/
theorem status_of_record {st : Stats} (queries : req.Queries w)
    (status : req.capmode.toNat = TES_CAP_AUTO) (found : req.Found w fs fs₁ (spell p) hdf5)
    (file : fs.node p = some (.file st.bytes)) (may : w.rights.read p = true)
    (ok : w.readOk = true) (d : CapData) :
    ∃ out, taskCapReqHn w req d fs = some out ∧ out.activated = false ∧
      out.reply = some (statsReply .ok st.wrapped) := by
  refine ⟨_, taskCapReqHn_query queries found d, query_inactive w _ fs₁, ?_⟩
  have hnoconvert : ((d.dbgAssert !d.job.core.recording).queried req (spell p)
      hdf5).job.core.noconvert = (req.capmode.toNat != TES_CAP_CONVONLY) := rfl
  have hlen := Stats.length_bytes st
  rw [query_reply (by rw [hnoconvert, status]; rfl), statsGot_of_found found file may ok,
    List.take_of_length_le hlen.le, Option.map_some, hlen, if_pos rfl, statsOver, hlen,
    List.drop_of_length_le (Stats.length_bytes _).le, List.append_nil, Stats.ofBytes_bytes]

/-! ## Writing the statistics -/

theorem dirs_save {files : Dset → List UInt8} {dss : List Dset} (isDir : fs.node p = some .dir) :
    (d.save files dss fs).node p = some .dir := by
  induction dss generalizing fs with
  | nil => exact isDir
  | cons ds dss ih =>
    refine ih ?_
    split
    · exact isDir
    next q hq =>
      rcases put_cases fs q (files ds) p with h | ⟨⟨data, h⟩, -⟩
      · rw [h, isDir]
      · rw [isDir] at h
        cases h

theorem placed_save (files : Dset → List UInt8) (dss : List Dset) {dir : Path} {c : Name}
    (placed : Placed w d fs dir c) : Placed w d (d.save files dss fs) dir c :=
  ⟨placed.stat, placed.filename, placed.nonempty, placed.slash,
    real_of_dirs (fun _ => dirs_save) placed.real placed.isDir, dirs_save placed.isDir⟩

/-- The file of the statistics cannot be created, or it is new and has what gets into it. -/
theorem statsWrite_cases {dir : Path} {c : Name} (w : ArchiveWorld) (st : Stats)
    (placed : Placed w.toCapWorld d fs dir c) :
    d.statsWrite w st fs = (false, fs) ∨ (fs.node (dir ++ [c]) = none ∧
      (d.statsWrite w st fs).1 = decide (STAT_LEN ≤ w.wrote) ∧ (d.statsWrite w st fs).2.node =
        Function.update fs.node (dir ++ [c]) (some (.file (st.bytes.take w.wrote)))) := by
  unfold statsWrite
  rw [placed.stat]
  rcases hopen : fs.openExcl w.rights (spell (dir ++ [c])) with ⟨err | q, fs'⟩
  · rcases create_place fs w.rights (.file []) (fs.parent w.rights (spell (dir ++ [c]))) with
      ⟨err', h⟩ | ⟨_, _, h, -, -⟩
    · obtain ⟨-, rfl⟩ := Prod.mk.inj (h.symm.trans hopen)
      exact Or.inl rfl
    · cases h.symm.trans hopen
  · have can := canCreate_of_openExcl placed.real placed.isDir placed.nonempty placed.slash hopen
    rw [openExcl_of_canCreate placed.real placed.isDir can] at hopen
    obtain ⟨hq, rfl⟩ := Prod.mk.inj hopen
    obtain rfl := Except.ok.inj hq
    refine Or.inr ⟨can.new, rfl, funext fun p => ?_⟩
    by_cases hp : p = dir ++ [c]
    · subst hp
      rw [put_self _ (Function.update_self ..), Function.update_self]
    · rw [put_of_ne _ hp, Function.update_of_ne hp]
      exact Function.update_of_ne hp _ _

/-- Statistics that are written are in the file of their name. -/
theorem statsWrite_records {w : ArchiveWorld} {dir : Path} {c : Name} {st : Stats}
    (placed : Placed w.toCapWorld d fs dir c) (h : (d.statsWrite w st fs).1 = true) :
    (d.statsWrite w st fs).2.node (dir ++ [c]) = some (.file st.bytes) := by
  rcases statsWrite_cases w st placed with hrefused | ⟨-, hwrote, hnode⟩
  · rw [hrefused] at h
    cases h
  · have hall : STAT_LEN ≤ w.wrote := of_decide_eq_true (hwrote.symm.trans h)
    rw [hnode, Function.update_self, List.take_of_length_le]
    rw [Stats.length_bytes]
    exact hall

/-- They still are after the conversion, if that is of another file. -/
theorem conclude_records {w : ArchiveWorld} {dir : Path} {c : Name} {report : Report} {job : Job}
    (placed : Placed w.toCapWorld d fs dir c) (one : w.ConvertsOne)
    (conv : job.core.noconvert = false → d.statfilename ≠ d.hdf5filename)
    (h : (d.conclude w report job fs).1.statsWritten = true) :
    (d.conclude w report job fs).2.node (dir ++ [c]) = some (.file report.st.bytes) := by
  have placed' := placed_save report.files Dset.all placed
  unfold conclude at h ⊢
  dsimp only at h ⊢
  split_ifs at h ⊢ with hdo
  · refine one d _ _ _ ?_ (statsWrite_records placed' h)
    rw [← placed.stat]
    exact conv hdo.2
  · exact statsWrite_records placed' h

end CapData

namespace Archive

variable {a a' b : Archive} {e : ArchiveEvent} {before events : List ArchiveEvent}
  {w : ArchiveWorld} {req : CapRequest} {fs₀ fs₁ : FileSystem} {hdf5 : CStr} {st : Stats}
  {r : Option CapReply}

/-- The statistics that get into their file at an event, if some do. -/
def written (e : ArchiveEvent) (a : Archive) : Option Stats :=
  match e, a.job with
  | .frame f, some w =>
    match taskCapPktHn w.fuel ⟨true, .ok⟩ f a.data.job with
    | some (some report, job) =>
      if (a.data.conclude w report job a.fs).1.statsWritten then some report.st else none
    | _ => none
  | .restart, some w =>
    match a.data.job.fin w.fuel with
    | some (report, _) =>
      if (a.data.statsWrite w report.st (a.data.save report.files Dset.all a.fs)).1 then
        some report.st
      else none
    | none => none
  | _, _ => none

/-- A conversion at the end of the job in progress changes one file, which is not that of the
statistics. -/
def ConvertsElsewhere (a : Archive) : Prop :=
  ∀ w, a.job = some w → w.ConvertsOne ∧
    (a.data.job.core.noconvert = false → a.data.statfilename ≠ a.data.hdf5filename)

/-- Statistics that have been written are those of the reply, and are in their file. -/
theorem records_of_written (inv : a.Inv) (elsewhere : a.ConvertsElsewhere)
    (h : a.handle e = some (r, a')) (wrote : written e a = some st) :
    a'.job = none ∧ a'.data.Idle ∧ (∃ status, r = some (statsReply status st)) ∧
      ∃ p, a.data.statfilename = spell p ∧ a'.fs.node p = some (.file st.bytes) := by
  obtain ⟨d, fs, job⟩ := a
  cases e with
  | request w req => cases job <;> cases wrote
  | frame f =>
    cases job with
    | none => cases wrote
    | some w =>
      obtain ⟨dir, c, placed⟩ := inv.placed w rfl
      obtain ⟨one, conv⟩ := elsewhere w rfl
      unfold written at wrote
      unfold handle at h
      dsimp only at h wrote
      split at wrote
      next report job hrun =>
        split_ifs at wrote with hwritten
        obtain rfl := Option.some.inj wrote
        rw [hrun] at h
        obtain ⟨rfl, rfl⟩ := Prod.mk.inj (Option.some.inj h)
        refine ⟨rfl, fun _ => rfl, ⟨_, rfl⟩, dir ++ [c], placed.stat, ?_⟩
        exact CapData.conclude_records placed one
          (fun hconv => conv ((taskCapPktHn_noconvert hrun).symm.trans hconv)) hwritten
      · cases wrote
  | restart =>
    cases job with
    | none => cases wrote
    | some w =>
      obtain ⟨dir, c, placed⟩ := inv.placed w rfl
      unfold written at wrote
      unfold handle at h
      dsimp only at h wrote
      split at wrote
      next report job hfin =>
        split_ifs at wrote with hwritten
        obtain rfl := Option.some.inj wrote
        rw [hfin] at h
        obtain ⟨rfl, rfl⟩ := Prod.mk.inj (Option.some.inj h)
        refine ⟨rfl, fun _ => rfl, ⟨_, rfl⟩, dir ++ [c], placed.stat, ?_⟩
        have placed' : CapData.Placed w.toCapWorld d (d.save report.files Dset.all fs) dir c :=
          CapData.placed_save _ _ placed
        exact CapData.statsWrite_records placed' hwritten
      · cases wrote
  | crash left => cases job <;> cases wrote

/-- The statistics of a capture are remembered. -/
theorem served (reached : Runs.run next before (start fs₀) = some a)
    (elsewhere : a.ConvertsElsewhere) (ends : a.handle e = some (r, a'))
    (wrote : written e a = some st)
    (along : Runs.Along next (ArchiveEvent.Leaves a.data.statfilename) events a')
    (run : Runs.run next events a' = some b) (idle : b.job = none)
    (queries : req.Queries w.toCapWorld) (status : req.capmode.toNat = TES_CAP_AUTO)
    (found : req.Found w.toCapWorld b.fs fs₁ a.data.statfilename hdf5)
    (may : ∀ p, spell p = a.data.statfilename → w.rights.read p = true) (ok : w.readOk = true) :
    (∃ status, r = some (statsReply status st)) ∧
      ∃ c, b.handle (.request w req) = some (some (statsReply .ok st.wrapped), c) := by
  have inv := inv_run reached
  obtain ⟨hjob, hidle, hreply, p, hspell, hfile⟩ := records_of_written inv elsewhere ends wrote
  refine ⟨hreply, ?_⟩
  rw [hspell] at along found
  have holds : a'.Holds p st.bytes := by
    obtain ⟨d, fs, job⟩ := a'
    obtain rfl : job = none := hjob
    exact holds_idle hidle hfile
  obtain ⟨-, holds'⟩ := holds_run (inv_handle inv ends) holds along run
  obtain ⟨out, hout, hanswered, hstatus⟩ := CapData.status_of_record queries status found
    holds'.file (may p hspell.symm) ok b.data
  refine ⟨⟨out.data, out.fs, if out.activated then some w else none⟩, ?_⟩
  unfold handle
  rw [idle]
  dsimp only
  rw [hout, Option.map_some, hstatus]

/-- A capture to this file name that has recorded two frames. -/
def underway (c : CStr) : Option Archive :=
  Runs.run next [.request fineArchive (captureOf c), .frame .tick, .frame .peak]
    (start (oneFile "c".toList []))

/-- The statistics of a capture that is cut short outlive the next server. -/
theorem served_restarted : ∃ a a' b r st c, underway "a".toList = some a ∧
    a.handle .restart = some (r, a') ∧
    Runs.run next [.frame .peak, .crash fun _ => [1]] a' = some b ∧
    b.handle (.request fineArchive (statusOf "a".toList)) =
      some (some (statsReply .ok st), c) := by
  have hbegun : (underway "a".toList).map (fun a => (a.data.statfilename, a.data.hdf5filename,
      (written .restart a).isSome)) =
      some (DATAROOT ++ "a".toList, DATAROOT ++ "a.hdf5".toList, true) := by
    decide +kernel
  have hnames : ((underway "a".toList).bind fun a => (a.handle .restart).bind fun q =>
      (Runs.run next [.frame .peak, .crash fun _ => [1]] q.2).map fun b =>
        (b.job.isNone, (canonicalizePath fineWorld "a".toList true b.fs).1,
          (canonicalizePath fineWorld "a.hdf5".toList false
            (canonicalizePath fineWorld "a".toList true b.fs).2).1)) =
      some (true, .path (DATAROOT ++ "a".toList), .path (DATAROOT ++ "a.hdf5".toList)) := by
    decide +kernel
  obtain ⟨a, ha, hdata⟩ := Option.map_eq_some_iff.1 hbegun
  obtain ⟨hstat, hdata⟩ := Prod.mk.inj hdata
  obtain ⟨hhdf5, hwrote⟩ := Prod.mk.inj hdata
  rw [ha, Option.bind_some] at hnames
  obtain ⟨⟨r, a'⟩, ends, hnames⟩ := Option.bind_eq_some_iff.1 hnames
  obtain ⟨b, run, hb⟩ := Option.map_eq_some_iff.1 hnames
  obtain ⟨hidle, hpaths⟩ := Prod.mk.inj hb
  obtain ⟨hpath, hpath'⟩ := Prod.mk.inj hpaths
  obtain ⟨st, wrote⟩ := Option.isSome_iff_exists.1 hwrote
  have elsewhere : a.ConvertsElsewhere := by
    intro w hw
    obtain ⟨req, hmem⟩ := job_run ha hw
    obtain ⟨rfl, -⟩ : w = fineArchive ∧ req = captureOf "a".toList := by simpa using hmem
    refine ⟨convertsOne_fine, fun _ => ?_⟩
    rw [hstat, hhdf5]
    decide
  have along : Runs.Along next (ArchiveEvent.Leaves a.data.statfilename)
      [.frame .peak, .crash fun _ => [1]] a' :=
    ⟨trivial, fun _ _ => ⟨trivial, fun _ _ => trivial⟩⟩
  have queries : (statusOf "a".toList).Queries fineArchive.toCapWorld :=
    ⟨by decide, Or.inr rfl, Or.inl rfl, Or.inl rfl, rfl, rfl⟩
  have found : (statusOf "a".toList).Found fineArchive.toCapWorld b.fs
      (canonicalizePath fineWorld "a.hdf5".toList false
        (canonicalizePath fineWorld "a".toList true b.fs).2).2 a.data.statfilename
      (DATAROOT ++ "a.hdf5".toList) := by
    rw [hstat]
    exact ⟨by decide, by decide, by decide, _, Prod.ext hpath rfl, Prod.ext hpath' rfl⟩
  obtain ⟨-, c, hc⟩ := served ha elsewhere ends wrote along run (Option.isNone_iff_eq_none.1 hidle)
    queries rfl found (fun _ _ => rfl) rfl
  exact ⟨a, a', b, r, st.wrapped, c, ha, ends, run, hc⟩

end Archive

end Tesd
