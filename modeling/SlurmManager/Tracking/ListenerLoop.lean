import SlurmManager.Lib.Runs
import SlurmManager.Manager.Json
import SlurmManager.Tracking.RedisSubClient

/-!
# ListenerLoop — the thread that serves every job

`_listener_loop` with `_normalize_message` and `parse_slurm_message`, next to anything that other threads and
the callbacks do to the registrations.  `json.loads` and the validation are parameters: `loads` returns a
value, raises `ValueError`, or raises `RecursionError`, which no `except` clause of the loop names.

* `normalize`: from a raw message to a topic and a message.
* `Listener.step`: the loop; a callback is one step, whether it raises or not.
* `Handled`: what the callbacks were passed is what the snapshots of the registrations ask for.
* `listener_run`: this holds over every run without a payload that nests too deeply; such a payload ends the
  thread.
-/

namespace SlurmManager

/-! ## Parsing -/

structure MessageParser where
  loads : String → Loaded
  /-- `SLURM_MESSAGE_ADAPTER.validate_python`; `none` is a `ValidationError`. -/
  validate : Json → Option SlurmMessage

/-- A channel or a payload: text or bytes. -/
inductive RedisText
  | text (s : String)
  | bytes (b : List UInt8)

inductive RedisData
  | raw (t : RedisText)
  | dict (o : Object)
  /-- Neither text nor a dictionary. -/
  | other

/-- What `get_message` gives. -/
inductive Polled
  | nothing
  | redisError
  | subscribe (topic : Topic)
  | unsubscribe (topic : Topic)
  | message (channel : RedisText) (data : RedisData)

/-- How `_normalize_message` ends. -/
inductive Normalized
  | ok (topic : Topic) (m : SlurmMessage)
  /-- `ValueError` or `TypeError`. -/
  | refused
  /-- `RecursionError`. -/
  | escaped

/-- `decode()`; `none` is a `UnicodeDecodeError`. -/
def RedisText.decode : RedisText → Option String
  | .text s => some s
  | .bytes b => String.fromUTF8? ⟨b.toArray⟩

namespace MessageParser

variable (p : MessageParser)

/-- `parse_slurm_message` of a text. -/
def parseText (topic : Topic) (text : String) : Normalized :=
  match p.loads text with
  | .tooDeep => .escaped
  | .valueError => .refused
  | .value j =>
    match p.validate j with
    | none => .refused
    | some m => .ok topic m

/-- `_normalize_message`. -/
def normalize (channel : RedisText) (data : RedisData) : Normalized :=
  match channel.decode with
  | none => .refused
  | some topic =>
    match data with
    | .other => .refused
    | .dict o =>
      match p.validate (.object o) with
      | none => .refused
      | some m => .ok topic m
    | .raw t =>
      match t.decode with
      | none => .refused
      | some text => p.parseText topic text

/-- The payload is a text that nests too deeply. -/
def Deep (r : Polled) : Prop :=
  ∃ channel t text, r = .message channel (.raw t) ∧ channel.decode.isSome ∧ t.decode = some text ∧
    p.loads text = .tooDeep

/-- The topic and the message of a poll result that parses. -/
def parsed? (r : Polled) : Option (Topic × SlurmMessage) :=
  match r with
  | .message channel data =>
    match p.normalize channel data with
    | .ok topic m => some (topic, m)
    | _ => none
  | _ => none

theorem normalize_escaped_iff {channel : RedisText} {data : RedisData} :
    p.normalize channel data = .escaped ↔ p.Deep (.message channel data) := by
  constructor
  · intro h
    unfold normalize at h
    split at h
    · contradiction
    · next topic ht =>
      split at h
      · contradiction
      · split at h <;> contradiction
      · next t =>
        split at h
        · contradiction
        · next text htext =>
          refine ⟨channel, t, text, rfl, by rw [ht]; rfl, htext, ?_⟩
          unfold parseText at h
          split at h
          · next hl => exact hl
          · contradiction
          · split at h <;> contradiction
  · rintro ⟨channel', t, text, he, hc, ht, hl⟩
    obtain ⟨rfl, rfl⟩ := Polled.message.inj he
    obtain ⟨topic, hc⟩ := Option.isSome_iff_exists.mp hc
    simp [normalize, parseText, hc, ht, hl]

end MessageParser

/-! ## The loop -/

/-- Where the listener thread stands. -/
inductive ListenerPlace (χ : Type)
  | polling
  /-- The message has been parsed. -/
  | parsed (topic : Topic) (m : SlurmMessage)
  /-- About to call the first of the captured callbacks. -/
  | calling (subs : List (Subscription χ)) (m : SlurmMessage)
  | ended
  | died

structure Listener (χ : Type) where
  client : RedisSubClient χ
  stop : Bool := false
  place : ListenerPlace χ := .polling
  /-- Histories: the poll results, the registrations seen for each parsed message, and the calls made. -/
  polls : List Polled := []
  snapshots : List (RedisSubClient χ × Topic × SlurmMessage) := []
  calls : List (Subscription χ × SlurmMessage) := []

namespace Listener

variable {χ : Type} (p : MessageParser)

inductive Label (χ : Type)
  /-- Other threads, or the callback that is running. -/
  | other (client : RedisSubClient χ)
  | stop
  | poll (r : Polled)
  /-- The loop finds the stop event set. -/
  | leave
  /-- `list(self._subscriptions_by_topic.get(topic, {}).values())`. -/
  | capture
  /-- A callback has returned, or it has raised. -/
  | call (raised : Bool)

/-- A turn of the loop up to the parsed message. -/
def poll (s : Listener χ) (r : Polled) : Listener χ :=
  let s := { s with polls := s.polls ++ [r] }
  match r with
  | .nothing => s
  | .redisError => s
  | .subscribe topic => { s with client := RedisSubClient.acknowledge topic s.client }
  | .unsubscribe _ => s
  | .message channel data =>
    match p.normalize channel data with
    | .ok topic m => { s with place := .parsed topic m }
    | .refused => s
    | .escaped => { s with place := .died }

def step (s : Listener χ) : Label χ → Option (Listener χ)
  | .other client => some { s with client := client }
  | .stop => some { s with stop := true }
  | .poll r =>
    match s.place with
    | .polling => if s.stop then none else some (s.poll p r)
    | _ => none
  | .leave =>
    match s.place with
    | .polling => if s.stop then some { s with place := .ended } else none
    | _ => none
  | .capture =>
    match s.place with
    | .parsed topic m =>
      some { s with
        place := .calling (s.client.capture topic) m
        snapshots := s.snapshots ++ [(s.client, topic, m)] }
    | _ => none
  | .call _ =>
    match s.place with
    | .calling (sub :: subs) m => some { s with place := .calling subs m, calls := s.calls ++ [(sub, m)] }
    | .calling [] _ => some { s with place := .polling }
    | _ => none

def Steps (s : Listener χ) (l : Label χ) (s' : Listener χ) : Prop := s.step p l = some s'

/-- A listener that has just been started. -/
structure Initial (s : Listener χ) : Prop where
  place : s.place = .polling
  stop : s.stop = false
  histories : s.polls = [] ∧ s.snapshots = [] ∧ s.calls = []

/-! ## What the callbacks have been passed -/

/-- The calls that a snapshot asks for: one for each callback of the topic. -/
def due (x : RedisSubClient χ × Topic × SlurmMessage) : List (Subscription χ × SlurmMessage) :=
  (x.1.capture x.2.1).map fun sub => (sub, x.2.2)

/-- The calls that are still to be made. -/
def left (s : Listener χ) : List (Subscription χ × SlurmMessage) :=
  match s.place with
  | .calling subs m => subs.map fun sub => (sub, m)
  | _ => []

/-- The message whose callbacks have not been captured. -/
def current (s : Listener χ) : List (Topic × SlurmMessage) :=
  match s.place with
  | .parsed topic m => [(topic, m)]
  | _ => []

/-- **The loop goes on, and nothing is lost**: every parsed message has its snapshot, in the order of arrival,
and every callback of a snapshot its call. -/
structure Handled (s : Listener χ) : Prop where
  alive : s.place ≠ .died
  ended : s.place = .ended → s.stop = true
  arrivals : s.polls.filterMap p.parsed? = s.snapshots.map Prod.snd ++ s.current
  calls : s.snapshots.flatMap due = s.calls ++ s.left

variable {p} {s s' : Listener χ}

theorem Initial.handled (h : s.Initial) : s.Handled p := by
  obtain ⟨h1, h2, h3⟩ := h.histories
  refine ⟨?_, ?_, ?_, ?_⟩
  · rw [h.place]
    exact nofun
  · rw [h.place]
    exact nofun
  · simp [h1, h2, current, h.place]
  · simp [h2, h3, left, h.place]

/-- A turn of the loop. -/
theorem Handled.poll (h : s.Handled p) (hp : s.place = .polling) {r : Polled} (hr : ¬ p.Deep r) :
    (s.poll p r).Handled p := by
  have harr := h.arrivals
  have hcalls := h.calls
  simp only [current, left, hp, List.append_nil] at harr hcalls
  have hnone : p.parsed? r = none → ({ s with polls := s.polls ++ [r] } : Listener χ).Handled p := by
    intro hn
    refine ⟨h.alive, h.ended, ?_, ?_⟩
    · simp [current, hp, harr, List.filterMap_append, hn]
    · simp [left, hp, hcalls]
  cases r with
  | nothing => exact hnone rfl
  | redisError => exact hnone rfl
  | subscribe topic =>
    have h' := hnone rfl
    exact ⟨h'.alive, h'.ended, h'.arrivals, h'.calls⟩
  | unsubscribe topic => exact hnone rfl
  | message channel data =>
    unfold Listener.poll
    dsimp only
    cases hn : p.normalize channel data with
    | ok topic m =>
      have hsome : p.parsed? (.message channel data) = some (topic, m) := by simp [MessageParser.parsed?, hn]
      refine ⟨nofun, nofun, ?_, ?_⟩
      · simp [current, harr, List.filterMap_append, hsome]
      · simp [left, hcalls]
    | refused => exact hnone (by simp [MessageParser.parsed?, hn])
    | escaped => exact absurd ((p.normalize_escaped_iff).mp hn) hr

/-- Every step keeps this, unless it polls a payload that nests too deeply. -/
theorem Handled.step (h : s.Handled p) {l : Label χ} (hl : ∀ r, l = .poll r → ¬ p.Deep r) (hs : Steps p s l s') :
    s'.Handled p := by
  unfold Steps Listener.step at hs
  cases l with
  | other client =>
    obtain rfl := Option.some.inj hs
    exact ⟨h.alive, h.ended, h.arrivals, h.calls⟩
  | stop =>
    obtain rfl := Option.some.inj hs
    exact ⟨h.alive, fun _ => rfl, h.arrivals, h.calls⟩
  | poll r =>
    cases hp : s.place with
    | polling =>
      simp only [hp] at hs
      split_ifs at hs
      obtain rfl := Option.some.inj hs
      exact h.poll hp (hl r rfl)
    | _ => simp [hp] at hs
  | leave =>
    cases hp : s.place with
    | polling =>
      simp only [hp] at hs
      split_ifs at hs with hstop
      obtain rfl := Option.some.inj hs
      have harr := h.arrivals
      have hcalls := h.calls
      simp only [current, left, hp] at harr hcalls
      exact ⟨nofun, fun _ => hstop, harr, hcalls⟩
    | _ => simp [hp] at hs
  | capture =>
    cases hp : s.place with
    | parsed topic m =>
      simp only [hp] at hs
      obtain rfl := Option.some.inj hs
      have harr := h.arrivals
      have hcalls := h.calls
      simp only [current, left, hp, List.append_nil] at harr hcalls
      refine ⟨nofun, nofun, ?_, ?_⟩
      · simp [current, harr]
      · simp [left, hcalls, due]
    | _ => simp [hp] at hs
  | call raised =>
    cases hp : s.place with
    | calling subs m =>
      have harr := h.arrivals
      have hcalls := h.calls
      simp only [current, left, hp] at harr hcalls
      cases subs with
      | nil =>
        simp only [hp] at hs
        obtain rfl := Option.some.inj hs
        exact ⟨nofun, nofun, harr, hcalls⟩
      | cons sub subs =>
        simp only [hp] at hs
        obtain rfl := Option.some.inj hs
        refine ⟨nofun, nofun, harr, ?_⟩
        simp [left, hcalls]
    | _ => simp [hp] at hs

/-- What a turn of the loop does to the thread. -/
theorem poll_died_iff (hp : s.place = .polling) (r : Polled) : (s.poll p r).place = .died ↔ p.Deep r := by
  have hnot : ∀ r', (∀ c d, r' ≠ .message c d) → ¬ p.Deep r' := by
    rintro r' hr' ⟨c, t, text, he, -⟩
    exact hr' _ _ he
  cases r with
  | message channel data =>
    rw [← p.normalize_escaped_iff]
    unfold Listener.poll
    dsimp only
    cases p.normalize channel data <;> simp [hp]
  | _ => simp [Listener.poll, hp, hnot]

/-- **Delivery over every run.**  As long as no payload nests too deeply: the loop has not died, has ended only if
it was told to, and every parsed message, in the order of arrival, has been passed once to each callback that
was registered for its topic when it was handled, up to the message in hand.  A payload that nests too deeply
ends the loop. -/
theorem listener_run {s₀ : Listener χ} {ls : List (Label χ)} (h₀ : s₀.Initial)
    (hrun : Run (Steps p) (fun _ l => ∀ r, l = .poll r → ¬ p.Deep r) s₀ ls s) :
    s.place ≠ .died ∧ (s.place = .ended → s.stop = true) ∧
    s.polls.filterMap p.parsed? = s.snapshots.map Prod.snd ++ s.current ∧
    s.snapshots.flatMap due = s.calls ++ s.left ∧
    ∀ r s', Steps p s (.poll r) s' → (s'.place = .died ↔ p.Deep r) := by
  have h : s.Handled p := hrun.invariant h₀.handled fun _ _ _ h hl hs => h.step hl hs
  refine ⟨h.alive, h.ended, h.arrivals, h.calls, fun r s' hs => ?_⟩
  unfold Steps Listener.step at hs
  cases hp : s.place with
  | polling =>
    simp only [hp] at hs
    split_ifs at hs
    obtain rfl := Option.some.inj hs
    exact poll_died_iff hp r
  | _ => simp [hp] at hs

/-- A parser that takes every text for a log message, except one that nests too deeply. -/
def brackets : MessageParser where
  loads text := if text = "[[" then .tooDeep else .value (.string text)
  validate _ := some (.log { log := "line" })

/-- One callback for one topic. -/
def listening : RedisSubClient Unit :=
  ((RedisSubClient.subscribe "t" ()).exec { pubsub := { failure := fun _ _ => none } }).2

/-- A message for the callback, between a Redis error and a message that is not text. -/
theorem listener_run_of_message : ∃ s : Listener Unit,
    Run (Steps brackets) (fun _ l => ∀ r, l = .poll r → ¬ brackets.Deep r)
      { client := listening }
      [.poll .redisError, .poll (.message (.text "t") (.raw (.text "log"))), .capture, .call true, .call false,
        .poll (.message (.text "t") .other)] s ∧
    s.calls.length = 1 ∧ s.place ≠ .died := by
  have hflat : ∀ r, (∀ c, r ≠ .message c (.raw (.text "[["))) → (∀ c b, r ≠ .message c (.raw (.bytes b))) →
      ¬ brackets.Deep r := by
    rintro r htext hbytes ⟨c, t, text, rfl, -, ht, hl⟩
    cases t with
    | bytes b => exact hbytes c b rfl
    | text u =>
      obtain rfl := Option.some.inj ht
      have hu : u ≠ "[[" := fun h => htext c (h ▸ rfl)
      simp [brackets, hu] at hl
  have hpoll : ∀ r₀, (∀ c, r₀ ≠ .message c (.raw (.text "[["))) → (∀ c b, r₀ ≠ .message c (.raw (.bytes b))) →
      ∀ r, (Label.poll r₀ : Label Unit) = .poll r → ¬ brackets.Deep r := by
    intro r₀ h1 h2 r hr
    obtain rfl := Label.poll.inj hr
    exact hflat _ h1 h2
  have hrun : Run (Steps brackets) (fun _ l => ∀ r, l = .poll r → ¬ brackets.Deep r)
      { client := listening }
      [.poll .redisError, .poll (.message (.text "t") (.raw (.text "log"))), .capture, .call true, .call false,
        .poll (.message (.text "t") .other)] _ :=
    .cons (hpoll _ nofun nofun) rfl
      (.cons (hpoll _ (by simp) (by simp)) rfl
        (.cons nofun rfl (.cons nofun rfl (.cons nofun rfl (.single (hpoll _ (by simp) (by simp)) rfl)))))
  exact ⟨_, hrun, rfl, (listener_run ⟨rfl, rfl, rfl, rfl, rfl⟩ hrun).1⟩

/-- One payload of brackets ends the thread, though nobody asked it to stop. -/
theorem listener_dies : ∃ s : Listener Unit,
    Run (Steps brackets) (fun _ _ => True) { client := listening }
      [.poll (.message (.text "t") (.raw (.text "[[")))] s ∧ s.place = .died ∧ s.stop = false :=
  ⟨_, .single trivial rfl, rfl, rfl⟩

end Listener

end SlurmManager
