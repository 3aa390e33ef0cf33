import Mathlib.Data.Finset.Dedup
import PbsGui.Engine.Metrics

/-!
# Series of the exporter

A scrape must not have two samples with one metric name and one set of labels.  The samples of
a rendered text are all different exactly if the jobs with run state have different names, the
databases of each of them too, and no two jobs agree in everything the job info shows.
`save_job` tells jobs apart by their ids only.
-/

namespace PbsGui.Engine.Metrics

open Lib Lib.Exposition List

/-- What identifies a sample: the metric name and the set of labels. -/
def seriesOf : ExpositionLine → Option (List Char × Finset (List Char × List Char))
  | .comment _ => none
  | .sample name labels _ _ => some (name, labels.toFinset)

/-- Lists of labels with the same names in the same places are the same sets only if they
are the same. -/
theorem eq_of_toFinset_eq {α β : Type*} [DecidableEq α] [DecidableEq β] {left right : List (α × β)}
    (hkeys : left.map Prod.fst = right.map Prod.fst) (hnodup : (left.map Prod.fst).Nodup)
    (h : left.toFinset = right.toFinset) : left = right := by
  have hmem : ∀ label, label ∈ left ↔ label ∈ right := fun label => by
    rw [← mem_toFinset, h, mem_toFinset]
  clear h
  induction left generalizing right with
  | nil =>
    rw [map_nil, eq_comm, map_eq_nil_iff] at hkeys
    exact hkeys.symm
  | cons label left ih =>
    cases right with
    | nil => cases hkeys
    | cons other right =>
      obtain ⟨hkey, htail⟩ := cons.inj hkeys
      obtain ⟨hfresh, hrest⟩ := nodup_cons.mp hnodup
      -- a label of this name is in neither tail
      have hnot : ∀ value, (label.1, value) ∉ left ∧ (label.1, value) ∉ right := fun value =>
        ⟨fun hin => hfresh (mem_map.mpr ⟨_, hin, rfl⟩),
          fun hin => hfresh (htail ▸ mem_map.mpr ⟨_, hin, rfl⟩)⟩
      have hhead : label = other := by
        rcases mem_cons.mp ((hmem label).mp mem_cons_self) with heq | hin
        · exact heq
        · exact absurd hin (hnot label.2).2
      subst hhead
      refine congrArg _ (ih htail hrest fun one => ?_)
      have hone : one = label → one ∉ left ∧ one ∉ right := fun heq => heq ▸ hnot label.2
      have hboth := hmem one
      rw [mem_cons, mem_cons] at hboth
      constructor
      · exact fun hin => (hboth.mp (.inr hin)).resolve_left fun heq => (hone heq).1 hin
      · exact fun hin => (hboth.mpr (.inr hin)).resolve_left fun heq => (hone heq).2 hin

namespace MetricsSample

variable {F : Type}

def series (sample : MetricsSample F) : List Char × Finset (List Char × List Char) :=
  (sample.head.name.toList, sample.labels.toFinset)

/-- Whether two samples could be mistaken for each other. -/
def Apart (left right : MetricsSample F) : Prop := left.series ≠ right.series

theorem nodup_labelNames (sample : MetricsSample F) : (sample.labels.map Prod.fst).Nodup := by
  cases sample <;> simp [labels]

section Iffs

variable {head : MetricHead} {job other : Ipc.Job} {v w : F}

theorem apart_iff {left right : MetricsSample F} (hhead : left.head = right.head)
    (hkeys : left.labels.map Prod.fst = right.labels.map Prod.fst) :
    left.Apart right ↔ left.labels ≠ right.labels := by
  refine not_congr ⟨fun h => ?_, fun h => ?_⟩
  · exact eq_of_toFinset_eq hkeys left.nodup_labelNames (Prod.mk.inj h).2
  · rw [series, series, hhead, h]

theorem jobGauge_apart_iff :
    (MetricsSample.jobGauge head job v).Apart (.jobGauge head other w) ↔ job.name ≠ other.name := by
  refine (apart_iff (by rfl) (by rfl)).trans ?_
  simp [labels, String.toList_inj]

theorem sqlGauge_apart_iff {database database' : String} :
    (MetricsSample.sqlGauge head job database v).Apart (.sqlGauge head other database' w) ↔
      ¬ (job.name = other.name ∧ database = database') := by
  refine (apart_iff (by rfl) (by rfl)).trans ?_
  simp [labels, String.toList_inj]

theorem jobRuns_apart_iff {result result' : RunResult} {count count' : Nat} :
    (MetricsSample.jobRuns job result count : MetricsSample F).Apart
        (.jobRuns other result' count') ↔ ¬ (job.name = other.name ∧ result = result') := by
  refine (apart_iff (by rfl) (by rfl)).trans ?_
  have hlabel : result.label = result'.label ↔ result = result' := by
    cases result <;> cases result' <;> simp [RunResult.label]
  simp [labels, String.toList_inj, hlabel]

def infoOf (job : Ipc.Job) : String × String × String × String × String × Bool :=
  (job.name, job.id, sourceLabel job, destinationLabel job, planLabel job, job.encrypted)

theorem jobInfo_apart_iff :
    (MetricsSample.jobInfo job : MetricsSample F).Apart (.jobInfo other) ↔
      infoOf job ≠ infoOf other := by
  refine (apart_iff (by rfl) (by rfl)).trans ?_
  have hencrypted : encryptedLabel job = encryptedLabel other ↔ job.encrypted = other.encrypted := by
    unfold encryptedLabel
    cases job.encrypted <;> cases other.encrypted <;> simp
  simp [labels, infoOf, String.toList_inj, hencrypted]

end Iffs

end MetricsSample

section Families

variable {F : Type} {ops : FloatOps F} {state : MetricsState F} {jobs : List Ipc.Job}
  {commit : Option String}

open MetricsSample

theorem forall_families {P : Family F → Prop} :
    (∀ family ∈ families ops state jobs commit, P family) ↔
      P { head := buildInfoHead, samples := [.buildInfo commit] } ∧
      P { head := jobsHead, samples := [.jobs jobs.length] } ∧
      P { head := startTimeHead, samples := [.startTime state.startTime] } ∧
      P { head := jobInfoHead, samples := jobs.map .jobInfo } ∧
      (∀ gauge ∈ jobGauges ops, P (jobGauge state jobs gauge)) ∧
      P (jobRuns state jobs) ∧ P (jobGauge state jobs (bytesTotalGauge ops)) ∧
      ∀ gauge ∈ sqlGauges ops, P (sqlGauge state jobs gauge) := by
  simp only [families, forall_mem_append, forall_mem_cons, forall_mem_map,
    not_mem_nil, false_implies, implies_true, and_true, and_assoc]

theorem head_of_mem_samples : ∀ family ∈ families ops state jobs commit,
    ∀ sample ∈ family.samples, sample.head = family.head := by
  have hgauge : ∀ gauge : JobGauge F, ∀ sample ∈ (jobGauge state jobs gauge).samples,
      sample.head = gauge.head := by
    intro gauge sample hmem
    obtain ⟨⟨job, r⟩, -, hpick⟩ := mem_filterMap.mp hmem
    obtain ⟨v, -, rfl⟩ := Option.map_eq_some_iff.mp hpick
    rfl
  have hsql : ∀ gauge : SqlGauge F, ∀ sample ∈ (sqlGauge state jobs gauge).samples,
      sample.head = gauge.head := by
    intro gauge sample hmem
    obtain ⟨⟨job, r⟩, -, hdb⟩ := mem_flatMap.mp hmem
    obtain ⟨db, -, hpick⟩ := mem_filterMap.mp hdb
    obtain ⟨v, -, rfl⟩ := Option.map_eq_some_iff.mp hpick
    rfl
  have hruns : ∀ sample ∈ (jobRuns state jobs).samples, sample.head = jobRunsHead := by
    intro sample hmem
    obtain ⟨⟨job, r⟩, -, hone⟩ := mem_flatMap.mp hmem
    simp only [mem_cons, not_mem_nil, or_false] at hone
    rcases hone with rfl | rfl | rfl <;> rfl
  refine forall_families.mpr ⟨?_, ?_, ?_, ?_, fun gauge _ => hgauge gauge, hruns,
    hgauge (bytesTotalGauge ops), fun gauge _ => hsql gauge⟩
  · exact forall_mem_singleton.mpr rfl
  · exact forall_mem_singleton.mpr rfl
  · exact forall_mem_singleton.mpr rfl
  · exact forall_mem_map.mpr fun job _ => rfl

theorem nodup_headNames :
    ((families ops state jobs commit).map fun family => family.head.name).Nodup := by
  simp [families, jobGauges, sqlGauges, jobGauge, jobRuns, sqlGauge, bytesTotalGauge,
    buildInfoHead, jobsHead, startTimeHead, jobInfoHead, jobRunsHead]

theorem filterMap_seriesOf (families : List (Family F)) :
    ((families.flatMap Family.writes).map (MetricsWrite.meaning ops)).filterMap seriesOf =
      (families.flatMap Family.samples).map series := by
  induction families with
  | nil => rfl
  | cons family later ih =>
    have hsamples : ((family.samples.map MetricsWrite.sample).map
        (MetricsWrite.meaning ops)).filterMap seriesOf = family.samples.map series := by
      rw [map_map, filterMap_map]
      exact congrFun filterMap_eq_map' _
    rw [flatMap_cons, flatMap_cons, map_append, map_append,
      filterMap_append, ih, Family.writes, map_cons, map_cons]
    exact congrArg (· ++ _) hsamples

theorem nodup_series_iff :
    (((families ops state jobs commit).flatMap Family.samples).map series).Nodup ↔
      ∀ family ∈ families ops state jobs commit, family.samples.Pairwise MetricsSample.Apart := by
  have hpairs : (families ops state jobs commit).Pairwise fun left right =>
      ∀ sample ∈ left.samples, ∀ other ∈ right.samples, sample.Apart other := by
    have hnames := pairwise_map.mp (@nodup_headNames F ops state jobs commit)
    refine hnames.imp_of_mem fun {left right} hleft hright hname sample hsample other hother => ?_
    refine fun heq => absurd (String.toList_inj.mp (Prod.mk.inj heq).1) ?_
    rwa [head_of_mem_samples left hleft sample hsample,
      head_of_mem_samples right hright other hother]
  rw [List.Nodup, pairwise_map, pairwise_flatMap]
  exact and_iff_left hpairs

/-- The jobs with run state have different names. -/
def NamesApart (state : MetricsState F) (jobs : List Ipc.Job) : Prop :=
  (tracked state jobs).Pairwise fun left right => left.1.name ≠ right.1.name

theorem jobGauge_apart (hnames : NamesApart state jobs) (gauge : JobGauge F) :
    (jobGauge state jobs gauge).samples.Pairwise MetricsSample.Apart := by
  refine pairwise_filterMap.mpr (hnames.imp fun {left right} hname one hone other hother => ?_)
  obtain ⟨v, -, rfl⟩ := Option.map_eq_some_iff.mp hone
  obtain ⟨w, -, rfl⟩ := Option.map_eq_some_iff.mp hother
  exact jobGauge_apart_iff.mpr hname

theorem jobRuns_apart (hnames : NamesApart state jobs) :
    (jobRuns state jobs).samples.Pairwise MetricsSample.Apart := by
  refine pairwise_flatMap.mpr ⟨fun entry _ => ?_, hnames.imp fun {left right} hname => ?_⟩
  · simp [jobRuns_apart_iff]
  · intro one hone other hother
    simp only [mem_cons, not_mem_nil, or_false] at hone hother
    rcases hone with rfl | rfl | rfl <;> rcases hother with rfl | rfl | rfl <;>
      exact jobRuns_apart_iff.mpr fun h => hname h.1

theorem sqlGauge_apart (hnames : NamesApart state jobs)
    (hdbs : ∀ entry ∈ tracked state jobs, (entry.2.databases.map (·.database)).Nodup)
    (gauge : SqlGauge F) : (sqlGauge state jobs gauge).samples.Pairwise MetricsSample.Apart := by
  refine pairwise_flatMap.mpr ⟨fun entry hentry => ?_, hnames.imp fun {left right} hname => ?_⟩
  · refine pairwise_filterMap.mpr ((pairwise_map.mp (hdbs entry hentry)).imp
      fun {left right} hname one hone other hother => ?_)
    obtain ⟨v, -, rfl⟩ := Option.map_eq_some_iff.mp hone
    obtain ⟨w, -, rfl⟩ := Option.map_eq_some_iff.mp hother
    exact sqlGauge_apart_iff.mpr fun h => hname h.2
  · intro one hone other hother
    obtain ⟨db, -, hdb⟩ := mem_filterMap.mp hone
    obtain ⟨v, -, rfl⟩ := Option.map_eq_some_iff.mp hdb
    obtain ⟨db', -, hdb'⟩ := mem_filterMap.mp hother
    obtain ⟨w, -, rfl⟩ := Option.map_eq_some_iff.mp hdb'
    exact sqlGauge_apart_iff.mpr fun h => hname h.1

theorem jobInfo_pairwise_iff :
    (jobs.map (MetricsSample.jobInfo : _ → MetricsSample F)).Pairwise MetricsSample.Apart ↔
      (jobs.map infoOf).Nodup := by
  rw [pairwise_map, List.Nodup, pairwise_map]
  exact List.Pairwise.iff fun job other => jobInfo_apart_iff

theorem namesApart_of_jobGauge {gauge : JobGauge F} (hpick : ∀ r, (gauge.pick r).isSome = true)
    (h : (jobGauge state jobs gauge).samples.Pairwise MetricsSample.Apart) : NamesApart state jobs := by
  refine (pairwise_filterMap.mp h).imp fun {left right} hapart => ?_
  obtain ⟨v, hv⟩ := Option.isSome_iff_exists.mp (hpick left.2)
  obtain ⟨w, hw⟩ := Option.isSome_iff_exists.mp (hpick right.2)
  exact jobGauge_apart_iff.mp (hapart _ (Option.map_eq_some_iff.mpr ⟨v, hv, rfl⟩) _
    (Option.map_eq_some_iff.mpr ⟨w, hw, rfl⟩))

theorem databases_nodup_of_sqlGauge {gauge : SqlGauge F}
    (hpick : ∀ db, (gauge.pick db).isSome = true)
    (h : (sqlGauge state jobs gauge).samples.Pairwise MetricsSample.Apart) :
    ∀ entry ∈ tracked state jobs, (entry.2.databases.map (·.database)).Nodup := by
  intro entry hentry
  have hdbs := pairwise_filterMap.mp ((pairwise_flatMap.mp h).1 entry hentry)
  refine pairwise_map.mpr (hdbs.imp fun {left right} hapart hname => ?_)
  obtain ⟨v, hv⟩ := Option.isSome_iff_exists.mp (hpick left)
  obtain ⟨w, hw⟩ := Option.isSome_iff_exists.mp (hpick right)
  exact sqlGauge_apart_iff.mp (hapart _ (Option.map_eq_some_iff.mpr ⟨v, hv, rfl⟩) _
    (Option.map_eq_some_iff.mpr ⟨w, hw, rfl⟩)) ⟨rfl, hname⟩

/-- When no two samples of the text can be mistaken for each other. -/
def SeriesApart (state : MetricsState F) (jobs : List Ipc.Job) : Prop :=
  (jobs.map infoOf).Nodup ∧ NamesApart state jobs ∧
    ∀ entry ∈ tracked state jobs, (entry.2.databases.map (·.database)).Nodup

theorem samples_apart_iff :
    (∀ family ∈ families ops state jobs commit, family.samples.Pairwise MetricsSample.Apart) ↔
      SeriesApart state jobs := by
  rw [forall_families]
  constructor
  · rintro ⟨-, -, -, hinfo, -, -, hbytes, hsql⟩
    have hstalled := hsql _ (mem_cons_of_mem _ mem_cons_self)
    exact ⟨jobInfo_pairwise_iff.mp hinfo, namesApart_of_jobGauge (fun _ => rfl) hbytes,
      databases_nodup_of_sqlGauge (fun _ => rfl) hstalled⟩
  · rintro ⟨hinfo, hnames, hdbs⟩
    exact ⟨pairwise_singleton _ _, pairwise_singleton _ _, pairwise_singleton _ _,
      jobInfo_pairwise_iff.mpr hinfo, fun gauge _ => jobGauge_apart hnames gauge,
      jobRuns_apart hnames, jobGauge_apart hnames _,
      fun gauge _ => sqlGauge_apart hnames hdbs gauge⟩

theorem series_of_render {store : JobStore} {lines : List ExpositionLine}
    (h : parseExposition (render ops commit store state) = some lines) :
    (lines.filterMap seriesOf).Nodup ↔ SeriesApart state store.list := by
  rw [parseExposition_render, Option.some.injEq] at h
  rw [← h, renderWrites, filterMap_seriesOf, nodup_series_iff, samples_apart_iff]

/-- The text can be read, and no two of its samples have one name and one set of labels
exactly if jobs and databases are told apart by what their samples show. -/
theorem render_series_nodup_iff (ops : FloatOps F) (commit : Option String) (store : JobStore)
    (state : MetricsState F) :
    (∃ lines, parseExposition (render ops commit store state) = some lines ∧
      (lines.filterMap seriesOf).Nodup) ↔ SeriesApart state store.list := by
  constructor
  · rintro ⟨lines, hlines, hnodup⟩
    exact (series_of_render hlines).mp hnodup
  · intro hapart
    have hlines := parseExposition_render ops commit store state
    exact ⟨_, hlines, (series_of_render hlines).mpr hapart⟩

end Families

/-- Two saved jobs of one name that both run are two samples of one series. -/
theorem sameName_repeats :
    let job := fun id : String =>
      ({ id := id, name := "nightly", source := .files ["C"] [] false,
         destination := .folder "D", schedule := .manual } : Ipc.Job)
    let store : JobStore :=
      { path := ⟨"C", "jobs.json"⟩, loadError := none
        items := Keyed.upsert Ipc.Job.id (job "2") (Keyed.upsert Ipc.Job.id (job "1") []) }
    let state : MetricsState Int := { startTime := 0, jobs := fun _ => none }
    let state := (state.setRunning integers "1" true).setRunning integers "2" true
    ∃ lines, parseExposition (render integers none store state) = some lines ∧
      ¬ (lines.filterMap seriesOf).Nodup := by
  intro job store state state'
  have hlines := parseExposition_render integers none store state'
  refine ⟨_, hlines, fun hnodup => ?_⟩
  have hnames := ((series_of_render hlines).mp hnodup).2.1
  have htracked : (tracked state' store.list).map (fun entry => entry.1.name) =
      ["nightly", "nightly"] := by rfl
  have hpair : ["nightly", "nightly"].Pairwise (· ≠ ·) := htracked ▸ pairwise_map.mpr hnames
  exact rel_of_pairwise_cons hpair mem_cons_self rfl

end PbsGui.Engine.Metrics
