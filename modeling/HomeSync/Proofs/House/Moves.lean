import HomeSync.House
import HomeSync.Proofs.Adapter.Mirror
import HomeSync.Proofs.Bus.Turns

/-
The moves of a house.

A run is a list of moves, each of which may be made in the state that it finds.
Some moves come from outside: something is done on the bus, a controller writes,
a router starts.  They set off whatever the parties on the bus do about it, but
the registry, the bridge, the installed accessories and their faces stay as they are.
-/
namespace HomeSync
namespace House

/-- One thing that can happen to a house. -/
inductive Move where
  /-- The registry is told of an announcement or a departure. -/
  | call (c : Call)
  /-- The adapter begins to follow the registry. -/
  | follow (listing : Listing)
  /-- The adapter takes its oldest event. -/
  | handle
  /-- The adapter is told of a change by somebody else. -/
  | tell (e : Event)
  | operate (op : Operation)
  | write (accessory characteristic : Nat) (v : Value)
  | start (config : RouterConfig)

def step (h : House) : Move → House
  | .call c => { h with registry := h.registry.call c }
  | .follow listing => h.addAdapter listing
  | .handle => h.handleNext
  | .tell e => { h with hub := h.hub.handle e }
  | .operate op => h.perform op
  | .write accessory characteristic v => (h.write? accessory characteristic v).getD h
  | .start config => h.startRouter config

def run (h : House) (moves : List Move) : House := moves.foldl step h

/-- Every move passes a test in the state that it finds. -/
def Allowed (test : House → Move → Prop) : House → List Move → Prop
  | _, [] => True
  | h, m :: rest => test h m ∧ Allowed test (h.step m) rest

/-- What every allowed move keeps holds after an allowed run. -/
theorem run_induct {test : House → Move → Prop} {P : House → Prop}
    (hstep : ∀ h m, P h → test h m → P (h.step m)) {moves : List Move} {h : House} (hP : P h)
    (hallowed : Allowed test h moves) : P (h.run moves) := by
  induction moves generalizing h with
  | nil => exact hP
  | cons m rest ih =>
    obtain ⟨hm, hrest⟩ := hallowed
    exact ih (hstep h m hP hm) hrest

/-- What every move keeps holds after any run. -/
theorem run_keeps {P : House → Prop} (hstep : ∀ h m, P h → P (h.step m)) (moves : List Move)
    {h : House} (hP : P h) : P (h.run moves) :=
  List.foldlRecOn moves step hP fun h hP m _ => hstep h m hP

theorem allowed_append {test : House → Move → Prop} {h : House} {before after : List Move} :
    Allowed test h (before ++ after) ↔
      Allowed test h before ∧ Allowed test (h.run before) after := by
  induction before generalizing h with
  | nil => exact (and_iff_right trivial).symm
  | cons m rest ih =>
    show test h m ∧ Allowed test (h.step m) (rest ++ after) ↔ _
    rw [ih, ← and_assoc]
    rfl

/-- What every move of an allowed run has by itself is no further restriction. -/
theorem allowed_and_of_forall_mem {test : House → Move → Prop} {Q : Move → Prop} {h : House}
    {moves : List Move} (hallowed : Allowed test h moves) (hQ : ∀ m ∈ moves, Q m) :
    Allowed (fun h m => test h m ∧ Q m) h moves := by
  induction moves generalizing h with
  | nil => trivial
  | cons m rest ih =>
    obtain ⟨hm, hrest⟩ := hallowed
    exact ⟨⟨hm, hQ m List.mem_cons_self⟩, ih hrest fun m' hm' => hQ m' (List.mem_cons_of_mem m hm')⟩

/-- The change that the adapter takes in with a move. -/
def told (h : House) : Move → Option Event
  | .tell e => some e
  | .handle => h.adapterStream.bind fun id => (h.registry.pending id).head?
  | _ => none

/-! ## What moves from outside leave alone -/

/-- The registry and everything the adapter keeps are the same in two houses. -/
structure Untouched (h h' : House) : Prop where
  registry : h'.registry = h.registry
  adapterStream : h'.adapterStream = h.adapterStream
  installed : h'.hub.installed = h.hub.installed
  faces : h'.hub.inventory.faces = h.hub.inventory.faces

namespace Untouched

theorem refl (h : House) : Untouched h h := ⟨rfl, rfl, rfl, rfl⟩

theorem trans {h h' h'' : House} (first : Untouched h h') (second : Untouched h' h'') :
    Untouched h h'' where
  registry := second.registry.trans first.registry
  adapterStream := second.adapterStream.trans first.adapterStream
  installed := second.installed.trans first.installed
  faces := second.faces.trans first.faces

end Untouched

theorem sendAll_keeps {α : Type} (f : House → α) (hsend : ∀ h n i, f (send h n i) = f h)
    (h : House) (n : Nat) (is : List Inbound) : f (h.sendAll n is) = f h :=
  List.foldlRecOn (motive := fun h' => f h' = f h) is _ rfl
    fun h' hsame i _ => (hsend h' n i).trans hsame

/-- Deliveries change nothing but notes, inboxes and the values of the characteristics
that they are made to. -/
theorem foldl_receive_keeps {α : Type} (f : House → α) (hnote : ∀ h n, f (note h n) = f h)
    (hsend : ∀ h n i, f (send h n i) = f h) {ds : List Delivery}
    (hreport : ∀ d ∈ ds, ∀ n code, d.receiver = .characteristic n code → ∀ h : House,
      f { h with hub.inventory := h.hub.inventory.report n code d.message.text } = f h)
    (h : House) : f (ds.foldl receive h) = f h := by
  refine List.foldlRecOn (motive := fun h' => f h' = f h) ds receive rfl
    fun h' hsame d hd => Eq.trans ?_ hsame
  obtain ⟨receiver, m⟩ := d
  cases receiver with
  | client n => exact hnote h' _
  | announcements n => exact sendAll_keeps f hsend h' n _
  | departures n => exact sendAll_keeps f hsend h' n _
  | characteristic n code => exact hreport _ hd n code rfl h'

/-- What has no part in notes, inboxes and values is not changed by an operation. -/
theorem perform_keeps {α : Type} (f : House → α) (hnote : ∀ h n, f (note h n) = f h)
    (hsend : ∀ h n i, f (send h n i) = f h)
    (hreport : ∀ (h : House) inventory, f { h with hub.inventory := inventory } = f h)
    (h : House) (op : Operation) :
    f (h.perform op) = f { h with hub.bus := (h.hub.bus.perform op).1 } :=
  foldl_receive_keeps f hnote hsend (fun _ _ _ _ _ h => hreport h _) _

theorem bus_perform (h : House) (op : Operation) :
    (h.perform op).hub.bus = (h.hub.bus.perform op).1 :=
  perform_keeps (·.hub.bus) (fun _ _ => rfl) (fun _ _ _ => rfl) (fun _ _ => rfl) h op

theorem faces_perform {h : House} (hbus : h.hub.bus.Shielded) (op : Operation) :
    (h.perform op).hub.inventory.faces = h.hub.inventory.faces := by
  obtain ⟨-, hdeliveries⟩ := Bus.shielded_perform hbus op
  refine foldl_receive_keeps (·.hub.inventory.faces) (fun _ _ => rfl) (fun _ _ _ => rfl)
    (fun d hd n code hr h => ?_) { h with hub.bus := (h.hub.bus.perform op).1 }
  -- no delivery is made to a flag
  have hflag := hdeliveries d hd
  rw [hr] at hflag
  have hcode : code ≠ TypeCode.reachable := by simpa [Receiver.isFlag] using hflag
  exact Inventory.faces_report hcode h.hub.inventory n d.message.text

theorem untouched_perform {h : House} (hbus : h.hub.bus.Shielded) (op : Operation) :
    Untouched h (h.perform op) ∧ (h.perform op).hub.bus = (h.hub.bus.perform op).1 := by
  refine ⟨⟨?_, ?_, ?_, faces_perform hbus op⟩, bus_perform h op⟩
  · exact perform_keeps (·.registry) (fun _ _ => rfl) (fun _ _ _ => rfl) (fun _ _ => rfl) h op
  · exact perform_keeps (·.adapterStream) (fun _ _ => rfl) (fun _ _ _ => rfl) (fun _ _ => rfl) h op
  · exact perform_keeps (·.hub.installed) (fun _ _ => rfl) (fun _ _ _ => rfl) (fun _ _ => rfl) h op

/-- Hand a publication out to all receivers of the moment, without letting anybody
react to it. -/
def hand (h : House) (p : Publication) : House :=
  ((h.hub.bus.receivers p.topic).map fun r => ⟨r, p.message⟩).foldl receive
    { h with hub.bus := h.hub.bus.accept p }

/-- Without clients nobody reacts to a publication. -/
theorem publish_eq_hand {h : House} (hclients : h.hub.bus.clients = []) (p : Publication) :
    h.publish p = h.hand p := by
  rw [publish, perform, Bus.perform_publish hclients]
  rfl

/-! ## Writes -/

/-- A write stores the value, and what it sets off is at most one note or one
publication. -/
theorem writeWhere?_cases {h h' : House} {n : Nat} {p : Characteristic → Bool} {v : Value}
    (hw : h.writeWhere? n p v = some h') :
    ∃ a c written stored, h.hub.inventory.get? n = some a ∧
      a.characteristics.find? p = some c ∧ c.write? v = some written ∧
      stored = { h with hub.inventory :=
        h.hub.inventory.modify n fun a => a.modify p fun _ => written } ∧
      (h' = stored ∨ (∃ note, h' = stored.note note) ∨ ∃ p, h' = stored.publish p) := by
  simp only [writeWhere?, Option.bind_eq_bind, Option.bind_eq_some_iff, Option.pure_def,
    Option.some.injEq] at hw
  obtain ⟨a, ha, c, hc, written, hwritten, rfl⟩ := hw
  refine ⟨a, c, written, _, ha, hc, hwritten, rfl, ?_⟩
  cases c.onWrite with
  | none => exact Or.inl rfl
  | some hook =>
    cases hook with
    | note name => exact Or.inr (Or.inl ⟨_, rfl⟩)
    | forward f =>
      dsimp only
      cases f.request v.toWire with
      | ok p => exact Or.inr (Or.inr ⟨p, rfl⟩)
      | error e => exact Or.inl rfl

/-- A write is a publication after a change of values, or less. -/
theorem untouched_writeWhere? {h h' : House} {n : Nat} {p : Characteristic → Bool} {v : Value}
    (hs : h.hub.Sound) (hw : h.writeWhere? n p v = some h') :
    Untouched h h' ∧ (h'.hub.bus = h.hub.bus ∨
      ∃ p, h'.hub.bus = (h.hub.bus.perform (.publish p)).1) := by
  obtain ⟨a, c, written, stored, ha, hc, hwritten, hstored, hh'⟩ := writeWhere?_cases hw
  have hsame : Untouched h stored := by
    rw [hstored]
    refine ⟨rfl, rfl, rfl, Inventory.faces_modify fun a' ha' => ?_⟩
    rw [ha, Option.some.injEq] at ha'
    rw [← ha']
    exact Accessory.face_write (Inventory.flagged_of_get? hs.flagged ha) hc hwritten
  -- storing the value does not reach the bus, only the forwarded request does
  have hbus : stored.hub.bus = h.hub.bus := by rw [hstored]
  rcases hh' with rfl | ⟨note, rfl⟩ | ⟨p, rfl⟩
  · exact ⟨hsame, Or.inl hbus⟩
  · exact ⟨⟨hsame.registry, hsame.adapterStream, hsame.installed, hsame.faces⟩, Or.inl hbus⟩
  · have hshielded : stored.hub.bus.Shielded := by
      rw [hbus]
      exact hs.shielded
    obtain ⟨hrest, hbus'⟩ := untouched_perform hshielded (.publish p)
    refine ⟨hsame.trans hrest, Or.inr ⟨p, ?_⟩⟩
    rw [← hbus]
    exact hbus'

/-! ## Moves from outside -/

/-- Whether a move is none of the registry's and none of the adapter's. -/
def Move.Outside : Move → Prop
  | .operate _ | .write .. | .start _ => True
  | _ => False

/-- A move from outside changes neither the registry nor anything that the
adapter keeps. -/
theorem untouched_step {h : House} (hs : h.hub.Sound) {m : Move} (hm : m.Outside) :
    Untouched h (h.step m) ∧ (h.step m).hub.Sound := by
  have hsound : ∀ h' : House, Untouched h h' → h'.hub.bus.Shielded → h'.hub.Sound :=
    fun h' hsame hbus => Hub.sound_of_faces hs hsame.installed hsame.faces hbus
  cases m with
  | operate op =>
    obtain ⟨hsame, hbus⟩ := untouched_perform hs.shielded op
    refine ⟨hsame, hsound _ hsame ?_⟩
    show (h.perform op).hub.bus.Shielded
    rw [hbus]
    exact (Bus.shielded_perform hs.shielded op).1
  | write accessory characteristic v =>
    rw [step]
    cases hw : h.write? accessory characteristic v with
    | none => exact ⟨.refl h, hs⟩
    | some h' =>
      obtain ⟨n, -, hn⟩ := Option.bind_eq_some_iff.mp hw
      obtain ⟨hsame, hbus⟩ := untouched_writeWhere? hs hn
      refine ⟨hsame, hsound _ hsame ?_⟩
      show h'.hub.bus.Shielded
      rcases hbus with hbus | ⟨p, hbus⟩
      · rw [hbus]
        exact hs.shielded
      · rw [hbus]
        exact (Bus.shielded_perform hs.shielded _).1
  | start config =>
    have hsame : Untouched h (h.startRouter config) := ⟨rfl, rfl, rfl, rfl⟩
    refine ⟨hsame, hsound _ hsame ?_⟩
    exact Bus.shielded_register (Bus.shielded_register hs.shielded _ rfl) _ rfl
  | call c => exact hm.elim
  | follow listing => exact hm.elim
  | handle => exact hm.elim
  | tell e => exact hm.elim

/-! ## The bridge and the hub -/

theorem bridge_perform (h : House) (op : Operation) :
    (h.perform op).hub.bridge = h.hub.bridge :=
  perform_keeps (·.hub.bridge) (fun _ _ => rfl) (fun _ _ _ => rfl) (fun _ _ => rfl) h op

/-- A move from outside asks nothing of the bridge. -/
theorem bridge_step (h : House) {m : Move} (hm : m.Outside) :
    (h.step m).hub.bridge = h.hub.bridge := by
  cases m with
  | operate op => exact bridge_perform h op
  | write accessory characteristic v =>
    rw [step]
    cases hw : h.write? accessory characteristic v with
    | none => rfl
    | some h' =>
      obtain ⟨n, -, hn⟩ := Option.bind_eq_some_iff.mp hw
      obtain ⟨a, c, written, stored, -, -, -, hstored, hh'⟩ := writeWhere?_cases hn
      have hbridge : stored.hub.bridge = h.hub.bridge := by rw [hstored]
      rw [Option.getD_some, ← hbridge]
      rcases hh' with rfl | ⟨note, rfl⟩ | ⟨p, rfl⟩
      · rfl
      · rfl
      · exact bridge_perform stored (.publish p)
  | start config => rfl
  | call c => exact hm.elim
  | follow listing => exact hm.elim
  | handle => exact hm.elim
  | tell e => exact hm.elim

/-- The hub changes by a move from outside or by the change that the adapter takes
in, and by nothing else. -/
theorem hub_step (h : House) (m : Move) :
    m.Outside ∨ (h.told m = none ∧ (h.step m).hub = h.hub) ∨
      ∃ e, h.told m = some e ∧ (h.step m).hub = h.hub.handle e := by
  cases m with
  | operate op => exact Or.inl trivial
  | write accessory characteristic v => exact Or.inl trivial
  | start config => exact Or.inl trivial
  | call c => exact Or.inr (Or.inl ⟨rfl, rfl⟩)
  | follow listing => exact Or.inr (Or.inl ⟨rfl, rfl⟩)
  | tell e => exact Or.inr (Or.inr ⟨e, rfl, rfl⟩)
  | handle =>
    refine Or.inr ?_
    show (_ ∧ h.handleNext.hub = _) ∨ ∃ e, _ ∧ h.handleNext.hub = _
    rw [told, handleNext]
    cases h.adapterStream with
    | none => exact Or.inl ⟨rfl, rfl⟩
    | some id =>
      dsimp only [Option.bind_some]
      cases h.registry.pending id with
      | nil => exact Or.inl ⟨rfl, rfl⟩
      | cons e rest => exact Or.inr ⟨e, rfl, rfl⟩

/-- What depends on the installed accessories, their faces and the bridge alone holds after
a move if it holds after every change that the adapter can take in. -/
theorem hub_step_keeps {P : Hub → Prop} {h : House} (hs : h.hub.Sound) {m : Move}
    (hfaces : ∀ h' : Hub, h'.installed = h.hub.installed →
      h'.inventory.faces = h.hub.inventory.faces → h'.bridge = h.hub.bridge → P h')
    (htakes : ∀ e h', h.told m = some e → h.hub.Takes e h' → P h') : P (h.step m).hub := by
  rcases hub_step h m with ho | ⟨-, hsame⟩ | ⟨e, he, hhandle⟩
  · obtain ⟨huntouched, -⟩ := untouched_step hs ho
    exact hfaces _ huntouched.installed huntouched.faces (bridge_step h ho)
  · exact hfaces _ (by rw [hsame]) (by rw [hsame]) (by rw [hsame])
  · exact htakes e _ he (by rw [hhandle]; exact Hub.takes_handle h.hub e)

theorem sound_step {h : House} (hs : h.hub.Sound) (m : Move) : (h.step m).hub.Sound := by
  rcases hub_step h m with ho | ⟨-, hsame⟩ | ⟨e, -, hhandle⟩
  · exact (untouched_step hs ho).2
  · rw [hsame]
    exact hs
  · rw [hhandle]
    exact Hub.sound_of_takes hs (Hub.takes_handle h.hub e)

theorem sound_create (recording : Bool) (info : Nameplate) :
    (House.create recording info).hub.Sound := by
  refine ⟨⟨?_, ?_, ?_⟩, ?_, ?_⟩
  · intro topic i hfind
    exact absurd hfind (by simp [House.create])
  · intro topic i hfind
    exact absurd hfind (by simp [House.create])
  · intro topic topic' i i' hfind
    exact absurd hfind (by simp [House.create])
  · intro s hs
    exact absurd hs (by simp [House.create])
  · intro f hf
    exact absurd hf (by simp [House.create, Inventory.faces])

end House
end HomeSync
