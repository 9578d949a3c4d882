import HomeSync.Proofs.House.Timeless

/-
Requests for announcements.

Each start of a router sets an alarm for the request.  We keep a ledger of a run: the starts
that were made, those of them that have asked and those that wait.  What the house has
published is what was done on the bus and the requests of those that have asked.  A router
never asks early, and where nothing is left to do all whose delay is over have asked, once
each.
-/
namespace HomeSync
namespace House

/-! ## Starts and publications of a run -/

/-- A router as it was started. -/
structure Start where
  number : Nat
  config : RouterConfig
  time : Nat

namespace Start

def due (s : Start) : Nat := s.time + s.config.delay

def alarm (s : Start) : Alarm := ⟨s.due, s.config.discovery⟩

end Start

def Happening.duration : Happening → Nat
  | .sleep duration => duration
  | _ => 0

/-- What others than routers publish about something that happens. -/
def remarks (h : House) : Happening → List Publication
  | .operate op => h.hub.bus.publications [.perform op]
  | _ => []

/-- Nothing is due and no message waits for a router. -/
structure Quiescent (h : House) : Prop where
  alarms : ∀ a ∈ h.alarms, h.clock < a.due
  inboxes : ∀ r ∈ h.routers, r.inbox = []

/-- Messages that nobody minds are put on record one by one. -/
theorem published_foldl_publish {quiet : List String} {h : House} (ha : Apart quiet h)
    (hrecording : h.hub.bus.recording = true)
    {ps : List Publication} (hps : ∀ p ∈ ps, p.topic ∈ quiet) :
    (ps.foldl publish h).hub.bus.recording = true ∧
      (ps.foldl publish h).hub.bus.published = h.hub.bus.published ++ ps := by
  induction ps generalizing h with
  | nil => exact ⟨hrecording, (List.append_nil _).symm⟩
  | cons p rest ih =>
    have hkept : (h.publish p).hub.bus.recording = true := by
      rw [publish, bus_perform, Bus.perform, Bus.recording_run]
      exact hrecording
    have hfirst : (h.publish p).hub.bus.published = h.hub.bus.published ++ [p] := by
      rw [publish, bus_perform, Bus.perform, Bus.published_run hrecording,
        (Bus.perform_publish_quiet ha.bus (hps p List.mem_cons_self)).2.2]
    obtain ⟨hlast, hall⟩ := ih (apart_perform ha (.publish p)) hkept
      fun p' hp' => hps p' (List.mem_cons_of_mem p hp')
    refine ⟨hlast, hall.trans ?_⟩
    refine (congrArg (· ++ rest) hfirst).trans ?_
    rw [List.append_assoc]
    rfl

/-! ## The ledger -/

/-- Of the starts that were made some have asked, none of them due after the limit, and the
others have an alarm. -/
structure Ledger (limit : Nat) (h : House) (others : List Publication)
    (started asked waiting : List Start) : Prop where
  recording : h.hub.bus.recording = true
  published : h.hub.bus.published.Perm (others ++ asked.map (·.config.discovery))
  alarms : h.alarms = waiting.map Start.alarm
  started : started.Perm (asked ++ waiting)
  due : ∀ s ∈ asked, s.due ≤ limit

namespace Ledger

variable {quiet : List String} {limit : Nat} {h : House} {others : List Publication}
  {started asked waiting : List Start}

theorem of_eq (hl : Ledger limit h others started asked waiting) {h' : House}
    (hbus : h'.hub.bus = h.hub.bus) (halarms : h'.alarms = h.alarms) :
    Ledger limit h' others started asked waiting :=
  ⟨by rw [hbus]; exact hl.recording, by rw [hbus]; exact hl.published, halarms.trans hl.alarms,
    hl.started, hl.due⟩

theorem mono (hl : Ledger limit h others started asked waiting) {limit' : Nat}
    (hle : limit ≤ limit') : Ledger limit' h others started asked waiting :=
  ⟨hl.recording, hl.published, hl.alarms, hl.started, fun s hs => (hl.due s hs).trans hle⟩

/-! ### Operations and starts -/

theorem perform (hl : Ledger limit h others started asked waiting) (op : Operation) :
    Ledger limit (h.perform op) (others ++ h.remarks (.operate op)) started asked waiting := by
  refine ⟨?_, ?_, ?_, hl.started, hl.due⟩
  · rw [bus_perform, Bus.perform, Bus.recording_run]
    exact hl.recording
  · have hadded : (h.perform op).hub.bus.published =
        h.hub.bus.published ++ h.remarks (.operate op) := by
      rw [bus_perform, Bus.perform, Bus.published_run hl.recording]
      rfl
    rw [hadded]
    refine (hl.published.append_right _).trans ?_
    rw [List.append_assoc, List.append_assoc]
    exact List.perm_append_comm.append_left others
  · have hkept : (h.perform op).alarms = h.alarms :=
      perform_keeps (·.alarms) (fun _ _ => rfl) (fun _ _ _ => rfl) (fun _ _ => rfl) h op
    exact hkept.trans hl.alarms

theorem startRouter (hl : Ledger limit h others started asked waiting) (config : RouterConfig) :
    Ledger limit (h.startRouter config) others (started ++ [⟨h.routers.length, config, h.clock⟩])
      asked (waiting ++ [⟨h.routers.length, config, h.clock⟩]) := by
  refine ⟨hl.recording, hl.published, ?_, ?_, hl.due⟩
  · show h.alarms ++ _ = _
    rw [hl.alarms, List.map_append]
    rfl
  · rw [← List.append_assoc]
    exact hl.started.append_right _

/-! ### Alarms -/

/-- Those whose alarm rings have asked from then on. -/
theorem ring (hl : Ledger limit h others started asked waiting) (ha : Apart quiet h)
    (hclock : h.clock ≤ limit) :
    ∃ asked' waiting', Ledger limit h.ring others started asked' waiting' := by
  let passed (s : Start) : Bool := s.due ≤ h.clock
  have hduePerm : h.due.Perm ((waiting.filter passed).map Start.alarm) := by
    rw [House.due, hl.alarms, List.filter_map]
    exact List.mergeSort_perm _ _
  have hring : h.ring = (h.due.map (·.publication)).foldl publish
      { h with alarms := h.alarms.filter fun a => !(a.due ≤ h.clock) } := by
    rw [List.foldl_map]
    rfl
  have hready : Apart quiet { h with alarms := h.alarms.filter fun a => !(a.due ≤ h.clock) } :=
    apart_of_eq ha rfl (fun _ hmem => (List.mem_filter.mp hmem).1) rfl
      (woken_of_eq ha.woken rfl rfl)
  have hquiet : ∀ p ∈ h.due.map (·.publication), p.topic ∈ quiet := by
    intro p hp
    obtain ⟨a, hmem, rfl⟩ := List.mem_map.mp hp
    exact ha.alarms a (List.mem_filter.mp (List.mem_mergeSort.mp hmem)).1
  obtain ⟨hrecording, hpublished⟩ := published_foldl_publish hready hl.recording hquiet
  refine ⟨asked ++ waiting.filter passed, waiting.filter fun s => !passed s, ?_, ?_, ?_, ?_, ?_⟩
  · rw [hring]
    exact hrecording
  · rw [hring, hpublished, List.map_append, ← List.append_assoc]
    refine hl.published.append ?_
    have hall := hduePerm.map (·.publication)
    rwa [List.map_map] at hall
  · rw [alarms_ring, hl.alarms, List.filter_map]
    rfl
  · refine hl.started.trans ?_
    rw [List.append_assoc]
    exact (List.filter_append_perm passed waiting).symm.append_left asked
  · intro s hs
    rcases List.mem_append.mp hs with hs | hs
    · exact hl.due s hs
    · exact (of_decide_eq_true (List.mem_filter.mp hs).2).trans hclock

theorem settle (hl : Ledger limit h others started asked waiting) (ha : Apart quiet h)
    (hclock : h.clock ≤ limit) :
    ∃ asked' waiting', Ledger limit h.settle others started asked' waiting' := by
  obtain ⟨asked', waiting', hl'⟩ := hl.ring ha hclock
  refine ⟨asked', waiting', ?_⟩
  rw [settle_eq ha.stream]
  exact hl'.of_eq (foldl_routeAll_keeps (·.hub.bus) (fun _ _ _ => rfl) _ _)
    (foldl_routeAll_keeps (·.alarms) (fun _ _ _ => rfl) _ _)

theorem wakeAt (hl : Ledger limit h others started asked waiting) (ha : Apart quiet h) {t : Nat}
    (ht : t ≤ limit) : ∃ asked' waiting', Ledger limit (h.wakeAt t) others started asked' waiting' :=
  settle (h := { h with clock := t }) (hl.of_eq rfl rfl)
    (apart_of_eq ha rfl (fun _ hmem => hmem) rfl (woken_of_eq ha.woken rfl rfl)) ht

theorem le_of_mem_dueTimes {t : Nat} (ht : t ∈ h.dueTimes limit) : t ≤ limit := by
  rw [dueTimes, List.mem_eraseDups, List.mem_mergeSort] at ht
  exact of_decide_eq_true (List.mem_filter.mp ht).2

theorem sleep (hl : Ledger h.clock h others started asked waiting) (ha : Apart quiet h)
    (duration : Nat) :
    ∃ asked' waiting',
      Ledger (h.clock + duration) (h.sleep duration) others started asked' waiting' := by
  have hall := List.foldlRecOn (motive := fun g => Apart quiet g ∧ ∃ asked' waiting',
      Ledger (h.clock + duration) g others started asked' waiting')
    (h.dueTimes (h.clock + duration)) House.wakeAt
    ⟨ha, asked, waiting, hl.mono (Nat.le_add_right _ _)⟩
    fun g hg t ht => ⟨apart_wakeAt hg.1 t, by
      obtain ⟨ha', asked', waiting', hl'⟩ := hg
      exact hl'.wakeAt ha' (le_of_mem_dueTimes ht)⟩
  obtain ⟨ha', asked', waiting', hl'⟩ := hall
  exact hl'.wakeAt ha' (Nat.le_refl _)

end Ledger

/-! ## Time and rest -/

section Rest

variable {quiet : List String} {h : House}

end Rest

/-! ## Runs -/

section Runs

variable {quiet : List String} {h : House} {others : List Publication}
  {started asked waiting : List Start}

end Runs

end House
end HomeSync
