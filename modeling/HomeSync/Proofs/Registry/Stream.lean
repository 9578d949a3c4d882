import HomeSync.Proofs.Registry.Replay

/-
What a stream holds after each operation on the registry.

A stream is found by its id, and no operation but its own changes the queue
except by putting events behind it.  Streams that were let go of are dropped with
the next event; the streams behind them keep their place and their queue.
-/
namespace HomeSync
namespace Registry

/-- A live stream and the events that wait in it. -/
def Follows (r : Registry) (id : Nat) (queue : List Event) : Prop :=
  r.streams.find? (fun s => s.id == id) = some { id, queue }

/-- No stream has an id that is still to be given out. -/
def Numbered (r : Registry) : Prop := ∀ s ∈ r.streams, s.id < r.nextStream

theorem pending_of_follows {r : Registry} {id : Nat} {q : List Event} (h : Follows r id q) :
    r.pending id = q := by
  rw [Follows] at h
  rw [pending, h]

/-! ## Events -/

theorem find?_filter_of_live {l : List Stream} {id : Nat} {s : Stream}
    (h : l.find? (fun s => s.id == id) = some s) (hlive : s.live = true) :
    (l.filter (·.live)).find? (fun s => s.id == id) = some s := by
  induction l with
  | nil => simp at h
  | cons a rest ih =>
    rw [List.find?_cons] at h
    rw [List.filter_cons]
    cases hid : a.id == id with
    | true =>
      rw [hid] at h
      obtain rfl : a = s := Option.some.inj h
      rw [if_pos hlive, List.find?_cons, hid]
    | false =>
      rw [hid] at h
      -- the stream in front may be dropped, but it is not the one that is looked for
      by_cases ha : a.live = true
      · rw [if_pos ha, List.find?_cons, hid]
        exact ih h
      · rw [if_neg ha]
        exact ih h

theorem follows_notify {r : Registry} {id : Nat} {q : List Event} (h : Follows r id q)
    (e : Event) : Follows (r.notify e) id (q ++ [e]) := by
  have hfind := find?_filter_of_live h rfl
  show ((r.streams.filter (·.live)).map _).find? _ = _
  rw [List.find?_map]
  show ((r.streams.filter (·.live)).find? (fun s => s.id == id)).map _ = _
  rw [hfind]
  rfl

theorem follows_foldl_notify (events : List Event) {r : Registry} {id : Nat} {q : List Event}
    (h : Follows r id q) : Follows (events.foldl notify r) id (q ++ events) := by
  induction events generalizing r q with
  | nil => simpa using h
  | cons e rest ih =>
    have hrest := ih (follows_notify h e)
    rw [List.append_assoc] at hrest
    exact hrest

/-- A call puts its events behind what waits in a stream. -/
theorem follows_call {r : Registry} {id : Nat} {q : List Event} (h : Follows r id q) (c : Call) :
    Follows (r.call c) id (q ++ c.events r.devices) := by
  rw [call_eq_notify]
  exact follows_foldl_notify _ h

theorem numbered_notify {r : Registry} (h : r.Numbered) (e : Event) : (r.notify e).Numbered := by
  intro s hs
  obtain ⟨s₀, hs₀, rfl⟩ := List.mem_map.mp hs
  exact h s₀ (List.mem_filter.mp hs₀).1

theorem numbered_foldl_notify (events : List Event) {r : Registry} (h : r.Numbered) :
    (events.foldl notify r).Numbered :=
  List.foldlRecOn events notify h fun _ hr e _ => numbered_notify hr e

theorem numbered_call {r : Registry} (h : r.Numbered) (c : Call) : (r.call c).Numbered := by
  rw [call_eq_notify]
  exact numbered_foldl_notify _ h

theorem nextStream_foldl_notify (events : List Event) (r : Registry) :
    (events.foldl notify r).nextStream = r.nextStream := by
  induction events generalizing r with
  | nil => rfl
  | cons e rest ih => exact ih (r.notify e)

theorem nextStream_call (r : Registry) (c : Call) : (r.call c).nextStream = r.nextStream := by
  rw [call_eq_notify, nextStream_foldl_notify]

/-! ## Opening a stream -/

theorem follows_subscribe_of_follows {r : Registry} {id : Nat} {q : List Event}
    (h : Follows r id q) (listing : Listing) : Follows (r.subscribe listing).1 id q := by
  show (r.streams ++ _).find? _ = _
  rw [Follows] at h
  rw [List.find?_append, h]
  rfl

theorem follows_subscribe {r : Registry} (h : r.Numbered) (listing : Listing) :
    Follows (r.subscribe listing).1 r.nextStream
      ((listing.list r.devices.values).map Event.updated) := by
  have hnew : r.streams.find? (fun s => s.id == r.nextStream) = none := by
    rw [List.find?_eq_none]
    intro s hs hid
    have := h s hs
    have := beq_iff_eq.mp hid
    omega
  show (r.streams ++ _).find? _ = _
  rw [List.find?_append, hnew, Option.none_or, List.find?_cons, beq_self_eq_true]

theorem numbered_subscribe {r : Registry} (h : r.Numbered) (listing : Listing) :
    (r.subscribe listing).1.Numbered := by
  intro s hs
  show s.id < r.nextStream + 1
  rcases List.mem_append.mp hs with hs | hs
  · have := h s hs
    omega
  · obtain rfl := List.mem_singleton.mp hs
    exact Nat.lt_succ_self r.nextStream

/-! ## Changing one stream -/

theorem id_comp_update (f : Stream → Stream) (hf : ∀ s, (f s).id = s.id) (id id' : Nat) :
    ((fun s : Stream => s.id == id) ∘ fun s => if s.id == id' then f s else s) =
      fun s => s.id == id := by
  funext s
  show ((if s.id == id' then f s else s).id == id) = (s.id == id)
  split
  · rw [hf]
  · rfl

theorem follows_map_of_ne {r : Registry} {id id' : Nat} {q : List Event} (h : Follows r id q)
    (hne : id ≠ id') (f : Stream → Stream) (hf : ∀ s, (f s).id = s.id) :
    Follows { r with streams := r.streams.map fun s => if s.id == id' then f s else s } id q := by
  show (r.streams.map _).find? _ = _
  rw [Follows] at h
  rw [List.find?_map, id_comp_update f hf, h, Option.map_some, if_neg (by simpa using hne)]

theorem numbered_map {r : Registry} (h : r.Numbered) (id' : Nat) (f : Stream → Stream)
    (hf : ∀ s, (f s).id = s.id) :
    Numbered { r with streams := r.streams.map fun s => if s.id == id' then f s else s } := by
  intro s hs
  obtain ⟨s₀, hs₀, rfl⟩ := List.mem_map.mp hs
  have hlt := h s₀ hs₀
  by_cases hid : s₀.id == id'
  · rw [if_pos hid, hf]
    exact hlt
  · rw [if_neg hid]
    exact hlt

theorem follows_drop_of_ne {r : Registry} {id id' : Nat} {q : List Event} (h : Follows r id q)
    (hne : id ≠ id') : Follows (r.drop id') id q :=
  follows_map_of_ne h hne _ fun _ => rfl

theorem numbered_drop {r : Registry} (h : r.Numbered) (id : Nat) : (r.drop id).Numbered :=
  numbered_map h id _ fun _ => rfl

theorem follows_skip_of_ne {r : Registry} {id id' : Nat} {q : List Event} (h : Follows r id q)
    (hne : id ≠ id') (count : Nat) : Follows (r.skip id' count) id q :=
  follows_map_of_ne h hne _ fun _ => rfl

theorem follows_skip {r : Registry} {id : Nat} {q : List Event} (h : Follows r id q)
    (count : Nat) : Follows (r.skip id count) id (q.drop count) := by
  show (r.streams.map _).find? _ = _
  rw [Follows] at h
  rw [List.find?_map,
    id_comp_update (fun s => { s with queue := s.queue.drop count }) (fun _ => rfl), h,
    Option.map_some, if_pos (beq_self_eq_true id)]

theorem numbered_skip {r : Registry} (h : r.Numbered) (id count : Nat) :
    (r.skip id count).Numbered :=
  numbered_map h id _ fun _ => rfl

end Registry
end HomeSync
