import HomeSync.Proofs.Adapter.Exhibits
import HomeSync.Proofs.House.Display
import HomeSync.Proofs.House.Foreign
import HomeSync.Proofs.House.Wiring

/-
The order between devices does not matter to the adapter.

A leave message is told device by device, in an order that means nothing.  Two hubs
that are told the same of every device, each in its own order between the devices, end
with the same accessories under the same ids, and the bridge is asked for the same.
Only the numbers of the accessories tell the orders apart.
-/
namespace HomeSync

/-- Two lists that agree on each key hold the same. -/
theorem perm_of_filter_eq {α κ : Type} [DecidableEq α] [DecidableEq κ] (key : α → κ)
    {l l' : List α} (h : ∀ k, l.filter (key · = k) = l'.filter (key · = k)) : l.Perm l' := by
  rw [List.perm_iff_count]
  intro a
  have hcount := congrArg (List.count a) (h (key a))
  rwa [List.count_filter (by simp), List.count_filter (by simp)] at hcount

namespace Exhibit

/-- What a list of events about one topic makes the hub ask of the bridge. -/
def requests (known : Option Exhibit) : List Event → List Bridge.Request
  | [] => []
  | e :: rest => (request? known e).toList ++ requests (after known e) rest

end Exhibit

namespace Hub

/-! ## Runs, one topic at a time -/

/-- What a list of events makes the hub ask of the bridge, with the topics of the
events. -/
def requests (h : Hub) : List Event → List (String × Bridge.Request)
  | [] => []
  | e :: rest =>
    (Exhibit.request? (h.exhibit? e.device.topic) e).toList.map (e.device.topic, ·)
      ++ (h.handle e).requests rest

theorem orderly_handle {h : Hub} (ho : h.Orderly) (e : Event) : (h.handle e).Orderly :=
  orderly_of_takes ho (takes_handle h e)

/-- What stands for a topic in the end is read off the events about it. -/
theorem exhibit?_foldl_handle (events : List Event) {h : Hub} (ho : h.Orderly) (hq : h.Quiet)
    (topic : String) :
    (events.foldl handle h).exhibit? topic =
      (events.filter (·.device.topic = topic)).foldl Exhibit.after (h.exhibit? topic) := by
  induction events generalizing h with
  | nil => rfl
  | cons e rest ih =>
    rw [List.foldl_cons, ih (orderly_handle ho e) (quiet_handle hq e), exhibit?_handle ho hq]
    by_cases ht : e.device.topic = topic
    · rw [if_pos ht, List.filter_cons_of_pos (by simpa using ht), List.foldl_cons]
    · rw [if_neg ht, List.filter_cons_of_neg (by simpa using ht)]

theorem filter_requests (events : List Event) {h : Hub} (ho : h.Orderly) (hq : h.Quiet)
    (topic : String) :
    (h.requests events).filter (·.1 = topic) =
      (Exhibit.requests (h.exhibit? topic) (events.filter (·.device.topic = topic))).map
        (topic, ·) := by
  induction events generalizing h with
  | nil => rfl
  | cons e rest ih =>
    rw [requests, List.filter_append, ih (orderly_handle ho e) (quiet_handle hq e),
      exhibit?_handle ho hq]
    by_cases ht : e.device.topic = topic
    · have hall : ∀ p ∈ (Exhibit.request? (h.exhibit? e.device.topic) e).toList.map
          (e.device.topic, ·), decide (p.1 = topic) = true := by
        intro p hp
        obtain ⟨q, -, rfl⟩ := List.mem_map.mp hp
        exact decide_eq_true ht
      rw [if_pos ht, List.filter_cons_of_pos (by simpa using ht), Exhibit.requests,
        List.map_append, List.filter_eq_self.mpr hall, ht]
    · have hnone : ∀ p ∈ (Exhibit.request? (h.exhibit? e.device.topic) e).toList.map
          (e.device.topic, ·), ¬ decide (p.1 = topic) = true := by
        intro p hp
        obtain ⟨q, -, rfl⟩ := List.mem_map.mp hp
        simpa using ht
      rw [if_neg ht, List.filter_cons_of_neg (by simpa using ht),
        List.filter_eq_nil_iff.mpr hnone, List.nil_append]

theorem asked_foldl_handle (events : List Event) {h : Hub} (ho : h.Orderly) (q : Bridge.Request) :
    (events.foldl handle h).bridge.asked q =
      h.bridge.asked q + ((h.requests events).map Prod.snd).count q := by
  induction events generalizing h with
  | nil => rfl
  | cons e rest ih =>
    have hsnd : ∀ l : List Bridge.Request, (l.map (e.device.topic, ·)).map Prod.snd = l := by
      intro l
      rw [List.map_map]
      exact List.map_id l
    rw [List.foldl_cons, ih (orderly_handle ho e), asked_handle ho, requests, List.map_append,
      hsnd, List.count_append, Nat.add_assoc]

/-! ## What the exhibits determine -/

/-- What is known of a hub that was told of devices, on a bus of its own. -/
structure Attended (topics : List String) (root : Accessory) (told : SortedMap String Device)
    (h : Hub) : Prop where
  sound : h.Sound
  quiet : h.Quiet
  wired : h.Wired
  displays : h.Displays topics
  shows : h.Shows told
  root : h.bridge.root = root

variable {topics : List String} {root : Accessory} {told told' : SortedMap String Device}

theorem attended_handle {h : Hub} (hdistinct : Identity.Distinct topics)
    (ha : h.Attended topics root told) {e : Event} (htopic : e.device.topic ∈ topics)
    (hmade : ∀ d, e = .updated d → d.Made) : (h.handle e).Attended topics root (e.record told) := by
  have ht := takes_handle h e
  have hasked := asked_of_takes ha.sound hdistinct ha.displays htopic ht
  exact ⟨sound_of_takes ha.sound ht, quiet_handle ha.quiet e,
    wired_of_takes ha.wired (fun d hd => Device.attached_of_made (hmade d hd)) ht,
    displays_of_takes ha.sound hdistinct ha.displays htopic ht, shows_of_takes ha.sound ht ha.shows,
    (Bridge.root_of_asked hasked).trans ha.root⟩

theorem attended_foldl_handle {events : List Event} {h : Hub}
    (hdistinct : Identity.Distinct topics) (ha : h.Attended topics root told)
    (htopics : ∀ e ∈ events, e.device.topic ∈ topics)
    (hmade : ∀ d, Event.updated d ∈ events → d.Made) :
    (events.foldl handle h).Attended topics root (events.foldl Event.record told) := by
  induction events generalizing h told with
  | nil => exact ha
  | cons e rest ih =>
    refine ih (attended_handle hdistinct ha (htopics e List.mem_cons_self) ?_)
      (fun e' he' => htopics e' (List.mem_cons_of_mem e he'))
      fun d hd => hmade d (List.mem_cons_of_mem e hd)
    rintro d rfl
    exact hmade d List.mem_cons_self

theorem attended_create (recording : Bool) (info : Nameplate) :
    (House.create recording info).hub.Attended topics (Bridge.create info).root
      SortedMap.empty := by
  have hshowing : (House.create recording info).Showing topics (Bridge.create info).root :=
    House.showing_create recording info
  refine ⟨hshowing.sound, rfl, (House.wired_create recording info).wired, hshowing.displays,
    ⟨fun _ => rfl, fun topic i d hi => ?_⟩, rfl⟩
  exact absurd hi (by simp [House.create])

variable {h h' : Hub}

theorem isSome_exhibit? (ho : h.Orderly) (topic : String) :
    (h.exhibit? topic).isSome = (h.installed.find? topic).isSome := by
  cases hi : h.installed.find? topic with
  | none =>
    rw [exhibit?_of_not_installed hi]
    rfl
  | some i =>
    obtain ⟨a, -, hexhibit⟩ := exhibit?_of_installed ho hi
    rw [hexhibit]
    rfl

/-- The exhibit that stands for an installed topic. -/
theorem exhibit?_eq_some_iff (ho : h.Orderly) {topic : String} {x : Exhibit} :
    h.exhibit? topic = some x ↔ ∃ i, h.installed.find? topic = some i ∧
      h.inventory.get? i.accessory = some x.accessory ∧ i.bindings = x.bindings := by
  constructor
  · intro hx
    obtain ⟨i, hi, hx⟩ := Option.bind_eq_some_iff.mp hx
    obtain ⟨a, ha, rfl⟩ := Option.map_eq_some_iff.mp hx
    exact ⟨i, hi, ha, rfl⟩
  · rintro ⟨i, hi, ha, hbindings⟩
    obtain ⟨a, ha', hexhibit⟩ := exhibit?_of_installed ho hi
    rw [hexhibit, hbindings, Option.some.inj (ha'.symm.trans ha)]

/-- What the bridge shows under an id. -/
def onBridge? (h : Hub) (id : Nat) : Option Accessory :=
  (h.bridge.find? id).bind h.inventory.get?

/-- The bridge shows the accessories of the exhibits, each under the id of its topic. -/
theorem onBridge?_eq_some_iff (ho : h.Orderly) (hd : h.Displays topics) {id : Nat}
    {a : Accessory} :
    h.onBridge? id = some a ↔
      ∃ topic x, h.exhibit? topic = some x ∧ Identity.topicId topic = id ∧ x.accessory = a := by
  constructor
  · intro ha
    obtain ⟨n, hn, ha⟩ := Option.bind_eq_some_iff.mp ha
    obtain ⟨topic, i, hi, hid⟩ := hd.listed id (by rw [hn]; rfl)
    have hshown := hd.shown topic i hi
    rw [hid, hn] at hshown
    obtain rfl := Option.some.inj hshown
    exact ⟨topic, ⟨a, i.bindings⟩, (exhibit?_eq_some_iff ho).mpr ⟨i, hi, ha, rfl⟩, hid, rfl⟩
  · rintro ⟨topic, x, hx, rfl, rfl⟩
    obtain ⟨i, hi, ha, -⟩ := (exhibit?_eq_some_iff ho).mp hx
    rw [onBridge?, hd.shown topic i hi]
    exact ha

theorem isSome_onBridge? (ho : h.Orderly) (hd : h.Displays topics) (id : Nat) :
    (h.onBridge? id).isSome = (h.bridge.find? id).isSome := by
  rw [Bool.eq_iff_iff]
  constructor
  · intro hsome
    obtain ⟨a, ha⟩ := Option.isSome_iff_exists.mp hsome
    obtain ⟨n, hn, -⟩ := Option.bind_eq_some_iff.mp ha
    rw [hn]
    rfl
  · intro hsome
    obtain ⟨topic, i, hi, hid⟩ := hd.listed id hsome
    obtain ⟨a, -, hexhibit⟩ := exhibit?_of_installed ho hi
    rw [(onBridge?_eq_some_iff ho hd).mpr ⟨topic, _, hexhibit, hid, rfl⟩]
    rfl

theorem onBridge?_eq_of_exhibits (ho : h.Orderly) (hd : h.Displays topics) (ho' : h'.Orderly)
    (hd' : h'.Displays topics) (hsame : ∀ topic, h.exhibit? topic = h'.exhibit? topic) (id : Nat) :
    h.onBridge? id = h'.onBridge? id := by
  apply Option.ext
  intro a
  rw [onBridge?_eq_some_iff ho hd, onBridge?_eq_some_iff ho' hd']
  simp only [hsame]

/-- The topics that are followed are those of the exhibits. -/
theorem filters_perm (hw : h.Wired) :
    (h.bus.wires.map (·.filter)).Perm
      ((h.installed.map fun _ i => i.bindings).values.flatMap
        (·.map fun b => b.feature.getTopic)) := by
  have hvalues : (h.installed.map fun _ i => i.bindings).values =
      h.installed.values.map (·.bindings) := by
    rw [SortedMap.values, SortedMap.values, SortedMap.map, List.map_map, List.map_map]
    rfl
  refine (hw.wires.map (·.filter)).trans (List.Perm.of_eq ?_)
  rw [hvalues, List.flatMap_map, List.map_flatMap]
  apply List.flatMap_congr
  intro i _
  rw [Installed.wires, List.map_map]
  rfl

theorem filters_perm_of_exhibits (ho : h.Orderly) (hw : h.Wired) (ho' : h'.Orderly)
    (hw' : h'.Wired) (hsame : ∀ topic, h.exhibit? topic = h'.exhibit? topic) :
    (h.bus.wires.map (·.filter)).Perm (h'.bus.wires.map (·.filter)) := by
  have hbindings : ∀ {g : Hub}, g.Orderly → ∀ topic,
      (g.installed.map fun _ i => i.bindings).find? topic =
        (g.exhibit? topic).map (·.bindings) := by
    intro g hg topic
    rw [SortedMap.find?_map]
    cases hi : g.installed.find? topic with
    | none => rw [exhibit?_of_not_installed hi]; rfl
    | some i =>
      obtain ⟨a, -, hexhibit⟩ := exhibit?_of_installed hg hi
      rw [hexhibit]
      rfl
  have hmaps : (h.installed.map fun _ i => i.bindings) =
      h'.installed.map fun _ i => i.bindings := by
    apply SortedMap.ext_find?
    intro topic
    rw [hbindings ho, hbindings ho', hsame]
  have hfilters := filters_perm hw
  rw [hmaps] at hfilters
  exact hfilters.trans (filters_perm hw').symm

/-- An exhibit has the structure of itself, since no bound in it is NaN. -/
theorem sameStructure_of_exhibit? (ho : h.Orderly) (hs : h.Shows told) {topic : String}
    {x : Exhibit} (hx : h.exhibit? topic = some x) :
    x.accessory.sameStructure x.accessory = true := by
  obtain ⟨i, hi, ha, -⟩ := (exhibit?_eq_some_iff ho).mp hx
  have htold : (told.find? topic).isSome := by
    rw [← hs.alike, hi]
    rfl
  obtain ⟨d, hd⟩ := Option.isSome_iff_exists.mp htold
  obtain ⟨⟨a, ha', hstructure, -⟩, -⟩ := hs.presents topic i d hi hd
  obtain rfl := Option.some.inj (ha.symm.trans ha')
  exact Accessory.sameStructure_self ((Accessory.sameStructure_iff _ _).mp hstructure).1

end Hub

namespace House

/-- Two adapters that are told the same of every device, in different orders between the
devices, end with the same topics installed.  The accessories are the same, and so are
their bindings, what the bridge shows, how often it was asked for what, and, up to their
order, the topics that the characteristics follow. -/
theorem order_between_devices (recording : Bool) (info : Nameplate) {events events' : List Event}
    (hmade : ∀ d, Event.updated d ∈ events → d.Made)
    (hdistinct : Identity.Distinct (events.map (·.device.topic)))
    (hsame : ∀ topic, events.filter (·.device.topic = topic) =
      events'.filter (·.device.topic = topic)) :
    let h := ((House.create recording info).run (events.map .tell)).hub
    let h' := ((House.create recording info).run (events'.map .tell)).hub
    h.installed.keys = h'.installed.keys ∧
    (∀ topic i, h.installed.find? topic = some i →
      ∃ i' a a', h'.installed.find? topic = some i' ∧ i.bindings = i'.bindings ∧
        h.inventory.get? i.accessory = some a ∧ h'.inventory.get? i'.accessory = some a' ∧
        a.sameStructure a' = true ∧ a.reachable = a'.reachable ∧ a = a') ∧
    (h.bridge.root = h'.bridge.root ∧ h.bridge.ids = h'.bridge.ids ∧
      ∀ id, (h.bridge.find? id).bind h.inventory.get? =
        (h'.bridge.find? id).bind h'.inventory.get?) ∧
    (h.bridge.adds = h'.bridge.adds ∧ h.bridge.replaces = h'.bridge.replaces ∧
      h.bridge.removes = h'.bridge.removes) ∧
    (h.bus.wires.map (·.filter)).Perm (h'.bus.wires.map (·.filter)) := by
  intro h h'
  have hperm : events.Perm events' := perm_of_filter_eq (·.device.topic) hsame
  let start := (House.create recording info).hub
  have hstart : start.Attended (events.map (·.device.topic)) (Bridge.create info).root
      SortedMap.empty := Hub.attended_create recording info
  have hh : h = events.foldl Hub.handle start := congrArg House.hub (hub_tell _ events)
  have hh' : h' = events'.foldl Hub.handle start := congrArg House.hub (hub_tell _ events')
  have ha : h.Attended _ _ _ := hh ▸ Hub.attended_foldl_handle hdistinct hstart
    (fun e he => List.mem_map_of_mem he) hmade
  have ha' : h'.Attended _ _ _ := hh' ▸ Hub.attended_foldl_handle hdistinct hstart
    (fun e he => List.mem_map_of_mem (hperm.mem_iff.mpr he))
    fun d hd => hmade d (hperm.mem_iff.mpr hd)
  have ho := ha.sound.orderly
  have ho' := ha'.sound.orderly
  have hexhibits : ∀ topic, h.exhibit? topic = h'.exhibit? topic := by
    intro topic
    rw [hh, hh', Hub.exhibit?_foldl_handle _ hstart.sound.orderly hstart.quiet,
      Hub.exhibit?_foldl_handle _ hstart.sound.orderly hstart.quiet, hsame]
  have hrequests : (start.requests events).Perm (start.requests events') := by
    refine perm_of_filter_eq Prod.fst fun topic => ?_
    rw [Hub.filter_requests _ hstart.sound.orderly hstart.quiet,
      Hub.filter_requests _ hstart.sound.orderly hstart.quiet, hsame]
  have hasked : ∀ q, h.bridge.asked q = h'.bridge.asked q := by
    intro q
    rw [hh, hh', Hub.asked_foldl_handle _ hstart.sound.orderly,
      Hub.asked_foldl_handle _ hstart.sound.orderly, (hrequests.map Prod.snd).count_eq]
  refine ⟨?_, ?_, ⟨ha.root.trans ha'.root.symm, ?_, ?_⟩,
    ⟨hasked .add, hasked .replace, hasked .remove⟩,
    Hub.filters_perm_of_exhibits ho ha.wired ho' ha'.wired hexhibits⟩
  · refine SortedMap.keys_eq_of_find? fun topic => ?_
    rw [← Hub.isSome_exhibit? ho, ← Hub.isSome_exhibit? ho', hexhibits]
  · intro topic i hi
    obtain ⟨a, hget, hx⟩ := Hub.exhibit?_of_installed ho hi
    obtain ⟨i', hi', hget', hbindings⟩ := (Hub.exhibit?_eq_some_iff ho').mp
      ((hexhibits topic).symm.trans hx)
    exact ⟨i', a, a, hi', hbindings.symm, hget, hget',
      Hub.sameStructure_of_exhibit? ho ha.shows hx, rfl, rfl⟩
  · refine SortedMap.keys_eq_of_find? fun id => ?_
    have hid := Hub.onBridge?_eq_of_exhibits ho ha.displays ho' ha'.displays hexhibits id
    exact (Hub.isSome_onBridge? ho ha.displays id).symm.trans
      ((congrArg Option.isSome hid).trans (Hub.isSome_onBridge? ho' ha'.displays id))
  · exact Hub.onBridge?_eq_of_exhibits ho ha.displays ho' ha'.displays hexhibits

/-- Of two lamps on one topic the first one is renamed, while the second one goes and
comes back. -/
def mixedEvents : List Event :=
  [.updated (sharingLamp "hall"), .updated (sharingLamp "attic"),
    .updated { sharingLamp "hall" with name := "Hall" }, .removed (sharingLamp "attic"),
    .updated (sharingLamp "attic")]

/-- The same events, all of the second lamp first. -/
def sortedEvents : List Event :=
  [.updated (sharingLamp "attic"), .removed (sharingLamp "attic"), .updated (sharingLamp "attic"),
    .updated (sharingLamp "hall"), .updated { sharingLamp "hall" with name := "Hall" }]

theorem order_between_devices_sharing :
    (∀ d, Event.updated d ∈ mixedEvents → d.Made) ∧
    Identity.Distinct (mixedEvents.map (·.device.topic)) ∧
    (∀ topic, mixedEvents.filter (·.device.topic = topic) =
      sortedEvents.filter (·.device.topic = topic)) ∧
    ((House.create false {}).run (sortedEvents.map .tell)).hub.bridge.replaces = 1 := by
  have hmade : ∀ d, Event.updated d ∈ mixedEvents → d.Made := by
    intro d hd
    have hd : d = sharingLamp "hall" ∨ d = sharingLamp "attic" ∨
        d = { sharingLamp "hall" with name := "Hall" } := by
      simpa [mixedEvents, or_comm, or_left_comm] using hd
    rcases hd with rfl | rfl | rfl
    · exact made_sharingLamp "hall"
    · exact made_sharingLamp "attic"
    · exact .assign _ _ _ _ _ _ _ _ (made_sharingLamp "hall")
  have hdistinct : Identity.Distinct (mixedEvents.map (·.device.topic)) := by decide +kernel
  have hsame : ∀ topic, mixedEvents.filter (·.device.topic = topic) =
      sortedEvents.filter (·.device.topic = topic) := by
    intro topic
    by_cases hhall : "hall" = topic
    · subst hhall
      decide +kernel
    · by_cases hattic : "attic" = topic
      · subst hattic
        decide +kernel
      · simp [mixedEvents, sortedEvents, Event.device, sharingLamp, Device.addFeature, hhall, hattic]
  have hreplaces : ((House.create false {}).run (mixedEvents.map .tell)).hub.bridge.replaces = 1 := by
    decide +kernel
  obtain ⟨-, -, -, ⟨-, hsame', -⟩, -⟩ := order_between_devices false {} hmade hdistinct hsame
  exact ⟨hmade, hdistinct, hsame, hsame'.symm.trans hreplaces⟩

end House
end HomeSync
