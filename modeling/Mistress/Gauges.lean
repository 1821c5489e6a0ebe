import Mathlib.Data.Finset.Card
import Mathlib.Order.Bounds.Basic
import Mistress.Lifecycle
import Mistress.TestShutDown

/-!
# The gauges

The launcher counts the concurrent users and their open connections, and reports
with each tick the greatest and the least value each of the two counts has taken.

The counts are changed by hooks of the sessions. `on_before_run` and
`on_after_run` are those of a launched session. `on_connect` and `on_disconnect`
are copied into its children: they are called by `get_connection`, when a
connection is put in the cache, and by the finalizer it adds to the connection.

`Gauged` is the launcher together with the sessions and their connections: the
hooks are called where the sessions act. It records the values the counts take
during a tick.

* `Extremes`: the greatest and the least value taken so far, as values come in.
* The counts are exact, and so are the values reported (`exact_of_reachable`), as long as
  no connection is closed again: `on_disconnect` is then called a second time
  (`reclosed_not_exact`).
-/

namespace Mistress

open Transition

/-! ## Extremes -/

section Extremes

variable {α : Type*} [LinearOrder α]

/-- The greatest and the least of the values `seen`, the last of which is `value`. -/
structure Extremes (seen : List α) (value max min : α) : Prop where
  mem : value ∈ seen
  greatest : IsGreatest {x | x ∈ seen} max
  least : IsLeast {x | x ∈ seen} min

variable {seen : List α} {value value' max' min' : α}

theorem extremes_singleton (value : α) : Extremes [value] value value value where
  mem := List.mem_singleton_self value
  greatest := ⟨List.mem_singleton_self value, fun _ h => (List.mem_singleton.1 h).le⟩
  least := ⟨List.mem_singleton_self value, fun _ h => (List.mem_singleton.1 h).ge⟩

/-- A new value comes in. -/
theorem Extremes.snoc (h : Extremes seen value max' min') (value' : α) :
    Extremes (seen ++ [value']) value' (max value' max') (min value' min') := by
  refine ⟨List.mem_append_right _ (List.mem_singleton_self _), ⟨?_, fun x hx => ?_⟩,
    ⟨?_, fun x hx => ?_⟩⟩
  · rcases max_choice value' max' with h' | h' <;> rw [h']
    · exact List.mem_append_right _ (List.mem_singleton_self _)
    · exact List.mem_append_left _ h.greatest.1
  · rcases List.mem_append.1 hx with hx | hx
    · exact le_max_of_le_right (h.greatest.2 hx)
    · exact (List.mem_singleton.1 hx).le.trans (le_max_left _ _)
  · rcases min_choice value' min' with h' | h' <;> rw [h']
    · exact List.mem_append_right _ (List.mem_singleton_self _)
    · exact List.mem_append_left _ h.least.1
  · rcases List.mem_append.1 hx with hx | hx
    · exact min_le_of_right_le (h.least.2 hx)
    · exact (min_le_left _ _).trans (List.mem_singleton.1 hx).ge

theorem Extremes.min_le (h : Extremes seen value max' min') : min' ≤ value := h.least.2 h.mem

theorem Extremes.le_max (h : Extremes seen value max' min') : value ≤ max' := h.greatest.2 h.mem

/-- Where the value does not fall, the least one need not be looked at, -/
theorem Extremes.rise (h : Extremes seen value max' min') (hle : value ≤ value') :
    Extremes (seen ++ [value']) value' (max value' max') min' := by
  have hs := h.snoc value'
  rwa [min_eq_right (h.min_le.trans hle)] at hs

/-- where it does not rise, the greatest one need not, -/
theorem Extremes.fall (h : Extremes seen value max' min') (hle : value' ≤ value) :
    Extremes (seen ++ [value']) value' max' (min value' min') := by
  have hs := h.snoc value'
  rwa [max_eq_right (hle.trans h.le_max)] at hs

/-- and where it stays, neither. -/
theorem Extremes.stay (h : Extremes seen value max' min') :
    Extremes (seen ++ [value]) value max' min' := by
  have hs := h.rise le_rfl
  rwa [max_eq_right h.le_max] at hs

end Extremes

/-! ## The launcher and the sessions -/

/-- The launcher, and the sessions with their connections. The launcher is not one of the
    sessions of the pool, whose queue is that of the others. -/
structure Gauged where
  launcher : Launcher
  life : Life
  /-- The sessions of the users, in the order of their launches. -/
  ids : List Nat
  /-- History: the numbers of concurrent users since the tick started. -/
  usersSeen : List ℤ
  /-- History: the numbers of concurrent connections since the tick started. -/
  connsSeen : List ℤ

/-- The hooks that count the connections. -/
inductive Hook
  /-- `on_connect` -/
  | connect
  /-- `on_disconnect` -/
  | disconnect

namespace Gauged

/-- The actions. -/
inductive Act
  /-- An action of the launcher or of the clock. -/
  | launcher (a : Launcher.Act)
  /-- The signal: the launcher and the sessions are shut down, these in the order `ids`. -/
  | shutDown (ids : List ℕ)
  /-- The launcher starts a tick, and registers the sessions of its users. -/
  | tick (draws : List ℚ)
  /-- An action of a session that neither starts nor ends a user. -/
  | session (a : Life.Act)
  /-- The session of the user `k` has been resumed, and its initial sleep is over. -/
  | userStart (k : ℕ)
  /-- It has been resumed by a shutdown, in its initial sleep. It has no connections. -/
  | userStop (k : ℕ)
  /-- The session of the user `k` ends, `pairs` going through its finalizers in the order `cs`. -/
  | userEnd (k : ℕ) (cs : List ℕ)

/-- The start of the test, at the time `now`, with no sessions of users. -/
def start (now : ℚ) : Gauged := ⟨Launcher.start now, Life.start, [], [0], [0]⟩

/-- The launcher has changed, and its counts are recorded. -/
def observe (g : Gauged) (l : Launcher) : Gauged :=
  { g with
    launcher := l
    usersSeen := g.usersSeen ++ [l.concurUsersNum]
    connsSeen := g.connsSeen ++ [l.concurConnsNum] }

/-- A hook is called. -/
def call (g : Gauged) : Hook → Gauged
  | .connect => g.observe g.launcher.onConnect
  | .disconnect => g.observe g.launcher.onDisconnect

/-- Whether a connection belongs to a launched session or a child of it. -/
def Launched (g : Gauged) (c : Nat) : Prop := (g.life.pool.conn c).root ∈ g.ids

instance (g : Gauged) (c : Nat) : Decidable (g.Launched c) := inferInstanceAs (Decidable (_ ∈ _))

/-- The hooks called in an action: `on_connect` for a connection that is put in the
    cache, and `on_disconnect` for those of the cache that are closed. -/
def hooks (g : Gauged) : Life.Act → List Hook
  | .pool a =>
    ((g.life.pool.caching a).toList.filter (g.Launched ·)).map (fun _ => .connect) ++
      ((g.life.pool.closing a).filter fun c =>
        (g.life.pool.conn c).cached ∧ g.Launched c).map fun _ => .disconnect
  | _ => []

/-- A session acts, and its hooks are called. -/
def session (g : Gauged) (a : Life.Act) : Option Gauged :=
  (Life.sys.step g.life a).map fun t => (g.hooks a).foldl call { g with life := t }

/-- The actions of the launcher that start and end no user, and of the process. -/
def OfLauncher : Launcher.Act → Prop
  | .go | .send _ | .resume | .timeout | .advance _ | .add _ => True
  | _ => False

instance : DecidablePred OfLauncher
  | .go | .send _ | .resume | .timeout | .advance _ | .add _ => isTrue trivial
  | .tick _ | .userStart _ | .userStop _ | .userEnd _ | .connect | .disconnect | .shutDown =>
    isFalse id

/-- The running session is not in its initial sleep, if it is one of a user. -/
def Awake (g : Gauged) : Prop :=
  ∀ id ∈ g.life.pool.current, ∀ p ∈ g.ids.zip g.launcher.users, p.1 = id → p.2.state = .active

instance (g : Gauged) : Decidable g.Awake := by
  unfold Awake
  infer_instance

/-- A session of a user does something between its start and its end only, and all the
    sessions are shut down with the launcher. -/
def Allowed (g : Gauged) : Life.Act → Prop
  | .pool (.parallel _) | .pool (.reuse _ _) | .pool (.connect _ _) | .connect _ => g.Awake
  | .pool (.finish _) => ∀ id ∈ g.life.pool.current, id ∉ g.ids
  | .pool (.shutDown _) => False
  | _ => True

instance (g : Gauged) : DecidablePred g.Allowed
  | .pool (.parallel _) | .pool (.reuse _ _) | .pool (.connect _ _) | .connect _ =>
    inferInstanceAs (Decidable g.Awake)
  | .pool (.finish _) => inferInstanceAs (Decidable (∀ id ∈ g.life.pool.current, id ∉ g.ids))
  | .pool (.shutDown _) => isFalse id
  | .pool .spawn | .pool (.plan _) | .pool (.event _) | .pool .start | .pool .fetch | .pool .done
  | .pool .yield | .pool .exit | .pool (.part _) | .pool (.connected _) | .pool (.refused _)
  | .pool (.send _) | .pool (.sendReady _) | .pool (.sendTimeout _) | .pool (.received _ _)
  | .pool (.reclose _) | .pool (.stop _) | .pool (.open _) | .pool (.close _) | .connected _ =>
    isTrue trivial

/-- The launcher has started a tick: the sessions of its users are registered. -/
def startTick (g : Gauged) (l : Launcher) (n : ℕ) : Gauged where
  launcher := l
  life := { g.life with pool := Pool.spawn^[n] g.life.pool }
  ids := g.ids ++ List.range' (g.life.pool.nextId + 1) n
  usersSeen := [l.concurUsersNum]
  connsSeen := [l.concurConnsNum]

/-- What a session does while the launcher is suspended. -/
def meanwhile (g : Gauged) : Act → Option Gauged
  | .session a => if g.Allowed a then g.session a else none
  | .shutDown ids =>
    (g.launcher.meanwhile .shutDown).bind fun l =>
      (g.session (.pool (.shutDown ids))).map (·.observe l)
  | .userStart k =>
    if g.ids[k]? = g.life.pool.current then (g.launcher.meanwhile (.userStart k)).map g.observe
    else none
  | .userStop k =>
    if g.ids[k]? = g.life.pool.current then
      (g.launcher.meanwhile (.userStop k)).bind fun l =>
        (g.session (.pool (.finish []))).map (·.observe l)
    else none
  | .userEnd k cs =>
    if g.ids[k]? = g.life.pool.current then
      -- `on_after_run` comes before `clean`.
      (g.launcher.meanwhile (.userEnd k)).bind fun l =>
        (g.observe l).session (.pool (.finish cs))
    else none
  | _ => none

/-- The step of an action of a process that has not exited. -/
def act (cfg : Config) (g : Gauged) : Act → Option Gauged
  | .launcher a =>
    if OfLauncher a then (Launcher.step cfg g.launcher a).map g.observe else none
  | .tick draws =>
    (Launcher.step cfg g.launcher (.tick draws)).map fun l =>
      if l.pc = .exited then g.observe l else g.startTick l draws.length
  | a => if g.launcher.Yielded then g.meanwhile a else none

/-- The launcher and the sessions, from the start of the test. -/
def sys (cfg : Config) : System Gauged Act where
  init g := ∃ now, g = start now
  step g a := if g.life.pool.exited then none else g.act cfg a

/-- The open connections of the caches of the launched sessions, which their children share. -/
def pooled (g : Gauged) : Finset ℕ :=
  (Finset.range g.life.pool.nextConn).filter fun c =>
    (g.life.pool.conn c).cached = true ∧ g.life.pool.Open c ∧ g.Launched c

/-- No session goes on with an event queued before its top-level session was cleaned. -/
def Timely (g : Gauged) : Act → Prop
  | .session (.pool a) => g.life.pool.Timely a
  | _ => True

instance (g : Gauged) : DecidablePred g.Timely := fun a => by
  unfold Timely
  split <;> infer_instance

/-- What is promised of the gauges. -/
structure Exact (cfg : Config) (g : Gauged) : Prop where
  /-- The concurrent users are those that are past their initial sleep and not finished, -/
  users : g.launcher.concurUsersNum = g.launcher.users.countP (·.state = .active)
  /-- a user being finished when its session is no longer registered. -/
  finished : ∀ (k id : ℕ) (u : User), g.ids[k]? = some id → g.launcher.users[k]? = some u →
    (u.state = .ended ↔ ¬g.life.pool.Registered id)
  conns : g.launcher.concurConnsNum = g.pooled.card
  nonneg : 0 ≤ g.launcher.concurUsersNum ∧ 0 ≤ g.launcher.concurConnsNum
  /-- A tick reports the extremes of what the counts have been since it started. -/
  report : ∀ wakeAt g', g.launcher.pc = .sleeping wakeAt →
    (sys cfg).step g (.launcher .resume) = some g' → ∃ usersMax usersMin connsMax connsMin,
      g'.launcher.added = g.launcher.added ++
        [⟨.concurUsersNumMax, .num usersMax⟩, ⟨.concurUsersNumMin, .num usersMin⟩,
          ⟨.concurConnsNumMax, .num connsMax⟩, ⟨.concurConnsNumMin, .num connsMin⟩] ∧
      IsGreatest {n | n ∈ g.usersSeen} usersMax ∧ IsLeast {n | n ∈ g.usersSeen} usersMin ∧
      IsGreatest {n | n ∈ g.connsSeen} connsMax ∧ IsLeast {n | n ∈ g.connsSeen} connsMin

/-! ## The values taken -/

variable {cfg : Config} {g g' : Gauged}

/-- The counts of users that have been seen, and their extremes. -/
def UsersSeen (g : Gauged) : Prop :=
  Extremes g.usersSeen g.launcher.concurUsersNum g.launcher.concurUsersNumMax
    g.launcher.concurUsersNumMin

/-- The counts of connections that have been seen, and their extremes. -/
def ConnsSeen (g : Gauged) : Prop :=
  Extremes g.connsSeen g.launcher.concurConnsNum g.launcher.concurConnsNumMax
    g.launcher.concurConnsNumMin

/-- The counts of users are the same. -/
structure SameUsers (l l' : Launcher) : Prop where
  num : l'.concurUsersNum = l.concurUsersNum
  max : l'.concurUsersNumMax = l.concurUsersNumMax
  min : l'.concurUsersNumMin = l.concurUsersNumMin

/-- The counts of connections are the same. -/
structure SameConns (l l' : Launcher) : Prop where
  num : l'.concurConnsNum = l.concurConnsNum
  max : l'.concurConnsNumMax = l.concurConnsNumMax
  min : l'.concurConnsNumMin = l.concurConnsNumMin

theorem UsersSeen.observe (h : g.UsersSeen) {l : Launcher} (hl : SameUsers g.launcher l) :
    (g.observe l).UsersSeen := by
  simp only [UsersSeen, Gauged.observe, hl.num, hl.max, hl.min]
  exact Extremes.stay h

theorem ConnsSeen.observe (h : g.ConnsSeen) {l : Launcher} (hl : SameConns g.launcher l) :
    (g.observe l).ConnsSeen := by
  simp only [ConnsSeen, Gauged.observe, hl.num, hl.max, hl.min]
  exact Extremes.stay h

/-- The launcher and the clock leave the counts alone, except when a tick starts. -/
theorem same_of_launcher {l l' : Launcher} {a : Launcher.Act} (ha : OfLauncher a)
    (h : Launcher.step cfg l a = some l') : SameUsers l l' ∧ SameConns l l' := by
  cases a with
  | tick | userStart | userStop | userEnd | connect | disconnect | shutDown => exact ha.elim
  | go | send | resume | timeout =>
    have hs := Launcher.step_still id (by simp) h
    exact ⟨⟨hs.concurUsersNum, hs.concurUsersNumMax, hs.concurUsersNumMin⟩,
      ⟨hs.concurConnsNum, hs.concurConnsNumMax, hs.concurConnsNumMin⟩⟩
  | advance d =>
    obtain ⟨-, h⟩ := Launcher.step_meanwhile (a := .advance d) trivial h
    obtain ⟨-, h⟩ := Option.ite_none_right_eq_some.1 h
    obtain rfl := Option.some.inj h
    exact ⟨⟨rfl, rfl, rfl⟩, ⟨rfl, rfl, rfl⟩⟩
  | add r =>
    obtain ⟨-, h⟩ := Launcher.step_meanwhile (a := .add r) trivial h
    obtain rfl := Option.some.inj h
    exact ⟨⟨rfl, rfl, rfl⟩, ⟨rfl, rfl, rfl⟩⟩

/-- A hook moves the count of connections by one, and leaves the users alone. -/
theorem seen_call (hu : g.UsersSeen) (hc : g.ConnsSeen) (h : Hook) :
    (g.call h).UsersSeen ∧ (g.call h).ConnsSeen := by
  cases h with
  | connect => exact ⟨hu.observe ⟨rfl, rfl, rfl⟩, hc.rise (by simp [Launcher.onConnect])⟩
  | disconnect => exact ⟨hu.observe ⟨rfl, rfl, rfl⟩, hc.fall (by simp [Launcher.onDisconnect])⟩

/-- The number of connections a list of hooks adds. -/
def Hook.delta : Hook → ℤ
  | .connect => 1
  | .disconnect => -1

/-- What a call of hooks changes. -/
theorem call_foldl (hs : List Hook) (hu : g.UsersSeen) (hc : g.ConnsSeen) :
    (hs.foldl call g).UsersSeen ∧ (hs.foldl call g).ConnsSeen ∧
      (hs.foldl call g).life = g.life ∧ (hs.foldl call g).ids = g.ids ∧
      (hs.foldl call g).launcher.users = g.launcher.users ∧
      (hs.foldl call g).launcher.concurUsersNum = g.launcher.concurUsersNum ∧
      (hs.foldl call g).launcher.concurConnsNum =
        g.launcher.concurConnsNum + (hs.map Hook.delta).sum := by
  induction hs generalizing g with
  | nil => exact ⟨hu, hc, rfl, rfl, rfl, rfl, by simp⟩
  | cons h hs ih =>
    obtain ⟨hu', hc'⟩ := seen_call hu hc h
    obtain ⟨h₁, h₂, h₃, h₄, h₅, h₆, h₇⟩ := ih hu' hc'
    refine ⟨h₁, h₂, h₃.trans ?_, h₄.trans ?_, h₅.trans ?_, h₆.trans ?_, h₇.trans ?_⟩
    all_goals cases h
    all_goals simp [call, Gauged.observe, Launcher.onConnect, Launcher.onDisconnect, Hook.delta]
    all_goals ring

/-! ## The connections -/

theorem mem_pooled {c : ℕ} (hp : g.life.pool.Inv) : c ∈ g.pooled ↔
    (g.life.pool.conn c).cached = true ∧ g.life.pool.Open c ∧ g.Launched c := by
  rw [pooled, Finset.mem_filter, Finset.mem_range, and_iff_right_iff_imp]
  exact fun h => (hp.sock _ c h.2.1).1

theorem pooled_same (hp : g.life.pool.Inv) (hp' : g'.life.pool.Inv)
    (hconn : g'.life.pool.conn = g.life.pool.conn) (hfds : g'.life.pool.fds = g.life.pool.fds)
    (hl : ∀ c, g.life.pool.Open c → (g'.Launched c ↔ g.Launched c)) : g'.pooled = g.pooled := by
  ext c
  rw [mem_pooled hp', mem_pooled hp, hconn, Pool.Open, hconn, hfds]
  exact and_congr_right fun _ => and_congr_right fun ho => hl c ho

/-- The connections that are closed are no longer pooled. -/
theorem pooled_closing {p : Pool} {closed : List Nat} {opened : Option Nat}
    (hp : g.life.pool.Inv) (hp' : p.Inv) (he : g.life.pool.Effect p closed opened none)
    (hids : g'.ids = g.ids) (hlife : g'.life.pool = p)
    (hnew : ∀ c ∈ opened, c = g.life.pool.nextConn) :
    g'.pooled = g.pooled \ closed.toFinset := by
  subst hlife
  ext c
  rw [mem_pooled hp', Finset.mem_sdiff, mem_pooled hp, List.mem_toFinset, Launched, Launched, hids,
    he.cached, he.isOpen]
  by_cases hc : c ∈ opened
  · have hno : ¬g.life.pool.Open c := fun h =>
      Nat.lt_irrefl _ (hnew c hc ▸ (hp.sock _ c h).1)
    simp [hc, hno]
  · rw [he.root c hc]
    simp [hc]
    tauto

/-- A connection that is put in the cache is pooled, if it is one of a launched session. -/
theorem pooled_caching {p : Pool} {c : Nat} (hp : g.life.pool.Inv) (hp' : p.Inv)
    (he : g.life.pool.Effect p [] none (some c)) (hids : g'.ids = g.ids)
    (hlife : g'.life.pool = p) (ho : g.life.pool.Open c) :
    g'.pooled = if g.Launched c then insert c g.pooled else g.pooled := by
  subst hlife
  ext c'
  rw [mem_pooled hp', Launched, hids, he.cached, he.isOpen, he.root c' nofun]
  split
  · rename_i hl
    rw [Finset.mem_insert, mem_pooled hp]
    by_cases hc : c' = c
    · subst hc
      have hl' : (g.life.pool.conn c').root ∈ g.ids := hl
      simp [hl', ho]
    · simp [hc, Ne.symm hc, Launched]
  · rename_i hl
    rw [mem_pooled hp]
    by_cases hc : c' = c
    · subst hc
      have hl' : (g.life.pool.conn c').root ∉ g.ids := hl
      simp [hl', Launched]
    · simp [Ne.symm hc, Launched]

/-- The sum of the changes of the hooks called in an action. -/
theorem sum_hooks (g : Gauged) (a : Pool.Act) : ((g.hooks (.pool a)).map Hook.delta).sum =
    ((g.life.pool.caching a).toList.filter (g.Launched ·)).length -
      ((g.life.pool.closing a).filter fun c =>
        (g.life.pool.conn c).cached ∧ g.Launched c).length := by
  simp [hooks, Hook.delta]
  ring

/-- The connection that is put in the cache is open, and was not there before. -/
theorem mem_caching {p : Pool} {a : Pool.Act} {c : Nat} (hp : p.Inv) (hc : c ∈ p.caching a) :
    p.Open c ∧ (p.conn c).cached = false ∧ p.closing a = [] ∧ p.opening a = none ∧
      p.caching a = some c := by
  cases a with
  | connected id =>
    simp only [Pool.caching] at hc
    split at hc
    · rename_i c' hw
      obtain rfl := Option.some.inj hc
      have hhttp := (Pool.waiting_eq_some.1 hw).2.2
      obtain ⟨huse, ho, -, -⟩ := hp.waiting hw rfl
      refine ⟨ho, Bool.eq_false_iff.2 fun h => huse.cached.1 h hhttp, rfl,
        rfl, ?_⟩
      simp only [Pool.caching, hw]
    · cases hc
  | _ => cases hc

/-- The hooks called in an action keep the count of connections right. -/
theorem card_pooled {p : Pool} {a : Pool.Act} (hp : g.life.pool.Inv)
    (hT : g.life.pool.Timely a) (h : g.life.pool.act a = some p) (ha : a ≠ .exit) (hids : g'.ids = g.ids)
    (hlife : g'.life.pool = p) :
    (g'.pooled.card : ℤ) = g.pooled.card + ((g.hooks (.pool a)).map Hook.delta).sum := by
  obtain ⟨he, hopen, hnd⟩ := Pool.effect_act hp hT h ha
  have hp' := hp.act hT h
  rw [sum_hooks]
  cases hcache : g.life.pool.caching a with
  | none =>
    rw [hcache] at he
    have hnew c (hc : c ∈ g.life.pool.opening a) := (Pool.mem_opening hc).1
    have hinter : g.pooled ∩ (g.life.pool.closing a).toFinset =
        ((g.life.pool.closing a).filter fun c =>
          (g.life.pool.conn c).cached ∧ g.Launched c).toFinset := by
      ext c
      rw [Finset.mem_inter, mem_pooled hp, List.mem_toFinset, List.mem_toFinset, List.mem_filter]
      have := hopen c
      simp
      tauto
    have hcard := Finset.card_sdiff_add_card_inter g.pooled (g.life.pool.closing a).toFinset
    rw [hinter, List.toFinset_card_of_nodup (hnd.filter _)] at hcard
    rw [pooled_closing hp hp' he hids hlife hnew]
    simp only [Option.toList_none, List.filter_nil, List.length_nil]
    omega
  | some c =>
    obtain ⟨ho, hcached, hclosing, hopening, -⟩ := mem_caching hp (c := c) hcache
    rw [hcache, hclosing, hopening] at he
    have hnot : c ∉ g.pooled := fun h => by
      rw [((mem_pooled hp).1 h).1] at hcached
      cases hcached
    rw [pooled_caching hp hp' he hids hlife ho, hclosing]
    split
    · rename_i hl
      simp [Finset.card_insert_of_notMem hnot, hl]
    · rename_i hl
      simp [hl]

/-- The session an action ends. -/
def ending (g : Gauged) : Life.Act → Option Nat
  | .pool a => g.life.pool.ending a
  | _ => none

/-- The invariant of the connections. -/
structure Counts (g : Gauged) : Prop where
  life : g.life.Inv
  users : g.UsersSeen
  conns : g.ConnsSeen
  card : g.launcher.concurConnsNum = g.pooled.card
  /-- The connections belong to sessions that have been registered. -/
  root : ∀ c < g.life.pool.nextConn, (g.life.pool.conn c).root ≤ g.life.pool.nextId

/-- The roots of the connections after a step. -/
theorem root_effect {p p' : Pool} {closed : List Nat} {opened cached : Option Nat}
    {ended : Option Nat} (he : p.Effect p' closed opened cached) (hk : p.Kept p' ended)
    (hf : p.Families) (hold : ∀ c < p.nextConn, (p.conn c).root ≤ p.nextId)
    (hnew : ∀ c ∈ opened, c = p.nextConn ∧ ∃ id, (p'.conn c).root = (p.session id).root) :
    ∀ c < p'.nextConn, (p'.conn c).root ≤ p'.nextId := by
  intro c hc
  by_cases ho : c ∈ opened
  · obtain ⟨-, id, hr⟩ := hnew c ho
    rw [hr]
    exact (hf id).1.trans hk.nextId
  · rw [he.root c ho]
    refine (hold c ?_).trans hk.nextId
    rw [he.nextConn] at hc
    cases opened with
    | none => exact hc
    | some c' =>
      obtain ⟨rfl, -⟩ := hnew c' rfl
      have hne : c ≠ p.nextConn := fun h => ho (h ▸ rfl)
      simp only [Option.toList_some, List.length_singleton] at hc
      omega

/-- A session acts: the connections of the caches change as the count does. -/
theorem Counts.session (hg : g.Counts) {a : Life.Act}
    (hT : ∀ b, a = .pool b → g.life.pool.Timely b) (h : g.session a = some g') :
    g'.Counts ∧ g.life.pool.Kept g'.life.pool (g.ending a) ∧ g'.ids = g.ids ∧
      g'.launcher.users = g.launcher.users ∧
      g'.launcher.concurUsersNum = g.launcher.concurUsersNum := by
  obtain ⟨t, ht, rfl⟩ := Option.map_eq_some_iff.1 h
  have hlife := (hg.life.step hT ht).1
  obtain ⟨hu, hc, hl, hids, hus, hnum, hconns⟩ := call_foldl (g := { g with life := t })
    (g.hooks a) hg.users hg.conns
  obtain ⟨-, ht⟩ := Option.ite_none_left_eq_some.1 ht
  suffices hcard : ((List.foldl call { g with life := t } (g.hooks a)).pooled.card : ℤ) =
      g.pooled.card + ((g.hooks a).map Hook.delta).sum ∧
      g.life.pool.Kept t.pool (g.ending a) ∧
      ∀ c < t.pool.nextConn, (t.pool.conn c).root ≤ t.pool.nextId by
    refine ⟨⟨hl ▸ hlife, hu, hc, ?_, by rw [hl]; exact hcard.2.2⟩, by rw [hl]; exact hcard.2.1,
      hids, hus, hnum⟩
    rw [hconns, hcard.1, ← hg.card]
  have hpool {g' : Gauged} (hlife' : g'.life.pool = t.pool) (hids' : g'.ids = g.ids)
      {opened : Option Nat} (he : g.life.pool.Effect t.pool [] opened none)
      (hnew : ∀ c ∈ opened, c = g.life.pool.nextConn) : g'.pooled.card = g.pooled.card := by
    rw [pooled_closing hg.life.pool hlife.pool he hids' hlife' hnew]
    simp
  cases a with
  | pool a =>
    obtain ⟨-, p, hp, rfl⟩ := Life.act_pool ht
    obtain ⟨hf, hk⟩ := hg.life.families.act hp
    by_cases ha : a = .exit
    · subst ha
      obtain rfl := Option.some.inj hp
      refine ⟨?_, hk, hg.root⟩
      rw [pooled_same hg.life.pool (by rw [hl]; exact hlife.pool) (by rw [hl]) (by rw [hl])
        fun c _ => by rw [Launched, hids, hl]; rfl]
      simp [hooks, Pool.caching, Pool.closing]
    · obtain ⟨he, -, -⟩ := Pool.effect_act hg.life.pool (hT a rfl) hp ha
      refine ⟨card_pooled hg.life.pool (hT a rfl) hp ha hids (by rw [hl]), hk,
        root_effect he hk hg.life.families hg.root fun c ho => ?_⟩
      obtain ⟨id, -, hr⟩ := Pool.root_opening hp ho
      exact ⟨(Pool.mem_opening ho).1, id, hr⟩
  | connect fd =>
    obtain ⟨id, hid, hfd, rfl⟩ := Life.act_connect ht
    have he := Pool.effect_openConn hg.life.pool id "" hfd
    have hk := (hg.life.families.stays (Pool.stays_openConn g.life.pool id "" fd) none).2
    refine ⟨?_, hk, root_effect he hk hg.life.families hg.root fun c ho => ?_⟩
    · rw [hpool (by rw [hl]) hids he fun c ho => (Option.some.inj ho).symm]
      simp [hooks]
    · obtain rfl := Option.some.inj ho
      exact ⟨rfl, id, Pool.root_openConn _ _ _ _⟩
  | connected id =>
    obtain ⟨c, -, -, -, rfl⟩ := Life.act_connected ht
    have he := (Pool.same_goOn g.life.pool id .out).effect
    have hk := (hg.life.families.stays (Pool.stays_goOn g.life.pool id .out) none).2
    refine ⟨?_, hk, root_effect he hk hg.life.families hg.root
      fun _ hc => absurd hc (Option.not_mem_none _)⟩
    rw [hpool (by rw [hl]) hids he fun _ hc => absurd hc (Option.not_mem_none _)]
    simp [hooks]

/-! ## The invariant -/

/-- What every step keeps. -/
structure Inv (g : Gauged) : Prop where
  counts : g.Counts
  counted : g.launcher.Counted
  length : g.ids.length = g.launcher.users.length
  nodup : g.ids.Nodup
  ids : ∀ id ∈ g.ids, id ≤ g.life.pool.nextId
  finished : ∀ (k id : ℕ) (u : User), g.ids[k]? = some id → g.launcher.users[k]? = some u →
    (u.state = .ended ↔ ¬g.life.pool.Registered id)

theorem inv_start (now : ℚ) : (start now).Inv where
  counts := ⟨Life.inv_start, extremes_singleton 0, extremes_singleton 0, rfl,
    fun c hc => absurd hc (Nat.not_lt_zero c)⟩
  counted := rfl
  length := rfl
  nodup := List.nodup_nil
  ids _ h := absurd h List.not_mem_nil
  finished k id u h := by simp [start] at h

/-- The launcher changes its counts of users. -/
theorem Counts.observe (hg : g.Counts) {l : Launcher} (hu : (g.observe l).UsersSeen)
    (hc : SameConns g.launcher l) : (g.observe l).Counts :=
  ⟨hg.life, hu, hg.conns.observe hc, hc.num.trans hg.card, hg.root⟩

theorem life_foldl (hs : List Hook) (g : Gauged) : (hs.foldl call g).life = g.life := by
  induction hs generalizing g with
  | nil => rfl
  | cons h hs ih =>
    refine (ih (g.call h)).trans ?_
    cases h <;> rfl

theorem step_of_session {a : Life.Act} (h : g.session a = some g') :
    Life.sys.step g.life a = some g'.life := by
  obtain ⟨t, ht, rfl⟩ := Option.map_eq_some_iff.1 h
  rw [life_foldl, ht]

/-- An action without hooks leaves the launcher alone. -/
theorem session_of_hooks {a : Life.Act} (ha : g.hooks a = []) (h : g.session a = some g') :
    g' = { g with life := g'.life } := by
  obtain ⟨t, -, rfl⟩ := Option.map_eq_some_iff.1 h
  rw [ha]
  rfl

/-- A session that ends is no longer registered. -/
theorem finish_registered {cs : List ℕ} (h : g.session (.pool (.finish cs)) = some g') {id : ℕ}
    (hid : g.life.pool.current = some id) : ¬g'.life.pool.Registered id := by
  obtain ⟨-, hs⟩ := Option.ite_none_left_eq_some.1 (step_of_session h)
  obtain ⟨-, p, hp, hlife⟩ := Life.act_pool hs
  rw [hlife]
  have hended : ¬(g.life.pool.ended id).Registered id := fun h => (AList.mem_erase.1 h).1 rfl
  obtain ⟨id', hid', ⟨-, -, rfl⟩ | ⟨-, rfl⟩⟩ := Pool.act_finish hp <;>
    obtain rfl := Option.some.inj (hid.symm.trans hid')
  · rwa [(Pool.stays_clean _ id cs).registered]
  · exact hended

/-- A user changes its state, while its session goes on or ends. -/
theorem Inv.user (hg : g.Inv) {k id : ℕ} {u : User} {state : UserState} {ended : Option ℕ}
    (hid : g.ids[k]? = some id) (hcounts : g'.Counts)
    (hcounted : g'.launcher.Counted) (hids : g'.ids = g.ids)
    (husers : g'.launcher.users = (g.launcher.setUser k u state).users)
    (hkept : g.life.pool.Kept g'.life.pool ended) (hended : ∀ i ∈ ended, i = id)
    (hstate : state = .ended ↔ ¬g'.life.pool.Registered id) : g'.Inv where
  counts := hcounts
  counted := hcounted
  length := by rw [hids, husers, hg.length]; simp [Launcher.setUser]
  nodup := hids ▸ hg.nodup
  ids i hi := (hg.ids i (hids ▸ hi)).trans hkept.nextId
  finished j i v hi hv := by
    rw [hids] at hi
    rw [husers, Launcher.setUser, List.getElem?_set] at hv
    split at hv
    · subst j
      obtain rfl := Option.some.inj (hid.symm.trans hi)
      split at hv
      · obtain rfl := Option.some.inj hv
        exact hstate
      · cases hv
    · rename_i hkj
      have hne : i ∉ ended := fun h => by
        obtain rfl := hended i h
        obtain ⟨hk, hik⟩ := List.getElem?_eq_some_iff.1 hid
        obtain ⟨hj, hij⟩ := List.getElem?_eq_some_iff.1 hi
        exact hkj ((hg.nodup.getElem_inj_iff).1 (hik.trans hij.symm))
      rw [hkept.registered i (hg.ids i (List.mem_of_getElem? hi)) hne]
      exact hg.finished j i v hi hv

/-- Sessions act that start and end no user. -/
theorem Inv.session (hg : g.Inv) {a : Life.Act} (ha : g.Allowed a)
    (hT : ∀ b, a = .pool b → g.life.pool.Timely b) (h : g.session a = some g') : g'.Inv := by
  obtain ⟨hcounts, hkept, hids, husers, hnum⟩ := hg.counts.session hT h
  refine ⟨hcounts, hg.counted.congr husers hnum, by rw [hids, husers, hg.length],
    hids ▸ hg.nodup, fun i hi => (hg.ids i (hids ▸ hi)).trans hkept.nextId,
    fun k id u hid hu => ?_⟩
  rw [hids] at hid
  have hmem := List.mem_of_getElem? hid
  have hne : id ∉ g.ending a := fun h => by
    cases a with
    | pool a =>
      cases a with
      | finish cs => exact ha id h hmem
      | _ => cases h
    | connect | connected => cases h
  rw [hkept.registered id (hg.ids id hmem) hne]
  exact hg.finished k id u hid (husers ▸ hu)

/-- The states of the users after an action of the launcher that starts and ends none. -/
theorem states_of_launcher {l l' : Launcher} {a : Launcher.Act} (ha : OfLauncher a)
    (h : Launcher.step cfg l a = some l') : l'.users.length = l.users.length ∧
      ∀ (k : ℕ) (u : User), l'.users[k]? = some u →
        ∃ v, l.users[k]? = some v ∧ v.state = u.state := by
  have hsame (husers : l'.users = l.users) : l'.users.length = l.users.length ∧
      ∀ (k : ℕ) (u : User), l'.users[k]? = some u →
        ∃ v, l.users[k]? = some v ∧ v.state = u.state := by
    rw [husers]
    exact ⟨rfl, fun k u hu => ⟨u, hu, rfl⟩⟩
  cases a with
  | tick | userStart | userStop | userEnd | connect | disconnect | shutDown => exact ha.elim
  | go | send | resume | timeout =>
    exact hsame (Launcher.step_still id (by simp) h).users
  | advance d =>
    obtain ⟨-, h⟩ := Launcher.step_meanwhile (a := .advance d) trivial h
    obtain ⟨-, h⟩ := Option.ite_none_right_eq_some.1 h
    obtain rfl := Option.some.inj h
    exact hsame rfl
  | add r =>
    obtain ⟨-, h⟩ := Launcher.step_meanwhile (a := .add r) trivial h
    obtain rfl := Option.some.inj h
    exact hsame rfl

/-- The launcher acts, or the clock. -/
theorem Inv.launcher (hg : g.Inv) {a : Launcher.Act} (ha : OfLauncher a) {l : Launcher}
    (h : Launcher.step cfg g.launcher a = some l) : (g.observe l).Inv := by
  obtain ⟨hu, hc⟩ := same_of_launcher ha h
  obtain ⟨hlen, hstates⟩ := states_of_launcher ha h
  refine ⟨hg.counts.observe (hg.counts.users.observe hu) hc, hg.counted.step h,
    hg.length.trans hlen.symm, hg.nodup, hg.ids, fun k id u hid hu => ?_⟩
  obtain ⟨v, hv, hvu⟩ := hstates k u hu
  rw [← hvu]
  exact hg.finished k id v hid hv

/-- Sessions are registered. -/
theorem spawn_iterate {p : Pool} (n : ℕ) (hp : p.Inv) (hf : p.Families) :
    (Pool.spawn^[n] p).Inv ∧ (Pool.spawn^[n] p).Families ∧ p.Kept (Pool.spawn^[n] p) none ∧
      Pool.Same p (Pool.spawn^[n] p) ∧ (Pool.spawn^[n] p).conn = p.conn ∧
      (Pool.spawn^[n] p).nextId = p.nextId + n ∧
      ∀ id, p.nextId < id → id ≤ p.nextId + n → (Pool.spawn^[n] p).Registered id := by
  induction n with
  | zero =>
    refine ⟨hp, hf, ⟨Nat.le_refl _, fun _ _ => rfl, fun _ _ _ => Iff.rfl⟩,
      .of_conn rfl rfl rfl rfl rfl, rfl, rfl, fun id hlt hle => ?_⟩
    exact absurd hlt (Nat.not_lt.2 hle)
  | succ n ih =>
    rw [Function.iterate_succ_apply']
    obtain ⟨hp', hf', hk, hsm, hconn, hid, hreg⟩ := ih
    obtain ⟨hf'', hk'⟩ := hf'.register (.inl rfl)
    refine ⟨hp'.register _, hf'', hk.trans hk', hsm.trans (Pool.same_register _ _), hconn, ?_,
      fun id hlt hle => ?_⟩
    · refine (Pool.nextId_register _ _).trans ?_
      rw [hid]
      rfl
    · by_cases hlast : id = p.nextId + n + 1
      · rw [hlast, ← hid]
        exact Pool.registered_register _ _
      · have hle' : id ≤ p.nextId + n := by omega
        exact (hk'.still (hid ▸ hle')).2 (hreg id hlt hle')

/-- A tick starts: its users wait, and their sessions are registered. -/
theorem Inv.startTick (hg : g.Inv) (draws : List ℚ) :
    (g.startTick (g.launcher.startTick draws) draws.length).Inv := by
  obtain ⟨hp, hf, hk, hsm, hconn, hid, hreg⟩ :=
    spawn_iterate draws.length hg.counts.life.pool hg.counts.life.families
  have hlen := hg.length
  have hnew {id : ℕ} : id ∈ List.range' (g.life.pool.nextId + 1) draws.length ↔
      g.life.pool.nextId < id ∧ id ≤ g.life.pool.nextId + draws.length := by
    rw [List.mem_range'_1]
    omega
  have hlaunched c (ho : g.life.pool.Open c) :
      (g.startTick (g.launcher.startTick draws) draws.length).Launched c ↔ g.Launched c := by
    have hroot := hg.counts.root c (hg.counts.life.pool.sock _ c ho).1
    simp only [Launched, Gauged.startTick, hconn, List.mem_append, hnew]
    exact or_iff_left fun h => absurd h.1 (Nat.not_lt.2 hroot)
  constructor
  case counts =>
    refine ⟨⟨hp, hf, hg.counts.life.nodup, hg.counts.life.own, fun c => ?_, fun c ho => ?_⟩,
      extremes_singleton _, extremes_singleton _, ?_, fun c hc => ?_⟩
    · exact (hg.counts.life.closes c).trans
        (and_congr (by rw [← hsm.nextConn]; rfl) (not_congr (hsm.isOpen c)).symm)
    · simp only [Gauged.startTick, hsm.finalizers, hconn]
      exact hg.counts.life.fin c ((hsm.isOpen c).1 ho)
    · rw [pooled_same hg.counts.life.pool hp hconn hsm.fds hlaunched]
      exact hg.counts.card
    · simp only [Gauged.startTick, hconn]
      exact (hg.counts.root c (hsm.nextConn ▸ hc)).trans hk.nextId
  case counted => exact hg.counted.startTick draws
  case length => simp [Gauged.startTick, Launcher.startTick, hlen]
  case nodup =>
    refine hg.nodup.append List.nodup_range' fun id h h' => ?_
    have := hg.ids id h
    have := (hnew.1 h').1
    omega
  case ids =>
    intro id h
    rcases List.mem_append.1 h with h | h
    · exact (hg.ids id h).trans hk.nextId
    · exact (hnew.1 h).2.trans hid.ge
  case finished =>
    intro k id u hk' hu
    simp only [Gauged.startTick, Launcher.startTick, List.getElem?_append, hlen] at hk' hu
    split at hk'
    · rename_i hlt
      rw [if_pos hlt] at hu
      have hle := hg.ids id (List.mem_of_getElem? hk')
      simp only [Gauged.startTick]
      rw [hk.still hle]
      exact hg.finished k id u hk' hu
    · rename_i hlt
      rw [if_neg hlt, List.getElem?_map, Option.map_eq_some_iff] at hu
      obtain ⟨d, -, rfl⟩ := hu
      obtain ⟨hlt', hle'⟩ := hnew.1 (List.mem_of_getElem? hk')
      simp only [Gauged.startTick]
      exact iff_of_false UserState.noConfusion (not_not_intro (hreg id hlt' hle'))

/-- Everybody is shut down: the counts stay what they are. -/
theorem Inv.shutDown (hg : g.Inv) {ids : List ℕ} (h : g.meanwhile (.shutDown ids) = some g') :
    g'.Inv := by
  obtain ⟨l, hl, h⟩ := Option.bind_eq_some_iff.1 h
  obtain ⟨g₁, hg₁, rfl⟩ := Option.map_eq_some_iff.1 h
  obtain ⟨hcounts, hkept, -, -, -⟩ := hg.counts.session (fun b hb => by cases hb; trivial) hg₁
  have heq := session_of_hooks (g := g) (a := .pool (.shutDown ids)) rfl hg₁
  obtain ⟨-, rfl⟩ := Launcher.meanwhile_shutDown hl
  generalize g₁.life = t at heq hkept
  subst heq
  refine ⟨hcounts.observe (hcounts.users.observe ⟨rfl, rfl, rfl⟩) ⟨rfl, rfl, rfl⟩,
    hg.counted.meanwhile hl, ?_, hg.nodup, fun i hi => (hg.ids i hi).trans hkept.nextId,
    fun k id u hid hu => ?_⟩
  · exact hg.length.trans (List.length_map _).symm
  · simp only [Gauged.observe, Launcher.shutDown, List.getElem?_map, Option.map_eq_some_iff] at hu
    obtain ⟨v, hv, rfl⟩ := hu
    exact (hg.finished k id v hid hv).trans
      (not_congr (hkept.still (hg.ids id (List.mem_of_getElem? hid)))).symm

/-- The session of a user that runs. -/
theorem Inv.current (hg : g.Inv) {k : ℕ} {u : User} (hid : g.ids[k]? = g.life.pool.current)
    (hu : g.launcher.users[k]? = some u) : ∃ id, g.life.pool.current = some id := by
  rw [← hid]
  have hlt := (List.getElem?_eq_some_iff.1 hu).1
  rw [← hg.length] at hlt
  exact ⟨_, List.getElem?_eq_getElem hlt⟩

/-- A user starts. -/
theorem Inv.userStart (hg : g.Inv) {k : ℕ} (h : g.meanwhile (.userStart k) = some g') :
    g'.Inv := by
  obtain ⟨hid, h⟩ := Option.ite_none_right_eq_some.1 h
  obtain ⟨l, hl, rfl⟩ := Option.map_eq_some_iff.1 h
  obtain ⟨u, hu, hw, -, hl'⟩ := Launcher.meanwhile_userStart hl
  obtain ⟨id, hcur⟩ := hg.current hid hu
  have hseen : (g.observe l).UsersSeen := by
    rw [hl']
    exact hg.counts.users.rise (by simp [Launcher.beforeRun, Launcher.add, Launcher.setUser])
  have hkept : g.life.pool.Kept g.life.pool none :=
    ⟨Nat.le_refl _, fun _ _ => rfl, fun _ _ _ => Iff.rfl⟩
  refine hg.user (hid.trans hcur) (hg.counts.observe hseen ?_) (hg.counted.meanwhile hl) rfl
    (by rw [hl']; rfl) hkept (fun i hi => absurd hi (by simp)) ?_
  · rw [hl']
    exact ⟨rfl, rfl, rfl⟩
  · have hreg := hg.finished k id u (hid.trans hcur) hu
    refine Iff.trans ?_ hreg
    rw [hw]
    simp

/-- A user is shut down in its initial sleep. -/
theorem Inv.userStop (hg : g.Inv) {k : ℕ} (h : g.meanwhile (.userStop k) = some g') :
    g'.Inv := by
  obtain ⟨hid, h⟩ := Option.ite_none_right_eq_some.1 h
  obtain ⟨l, hl, h⟩ := Option.bind_eq_some_iff.1 h
  obtain ⟨g₁, hg₁, rfl⟩ := Option.map_eq_some_iff.1 h
  obtain ⟨hcounts, hkept, -, -, -⟩ := hg.counts.session (fun b hb => by cases hb; trivial) hg₁
  obtain ⟨u, hu, hw, -, hl'⟩ := Launcher.meanwhile_userStop hl
  obtain ⟨id, hcur⟩ := hg.current hid hu
  have hended := finish_registered hg₁ hcur
  have hhooks : g.hooks (.pool (.finish [])) = [] := by
    simp [hooks, Pool.caching, Pool.closing, hcur]
  have heq := session_of_hooks hhooks hg₁
  generalize g₁.life = t at heq hkept hended
  subst heq
  have hseen : (Gauged.observe { g with life := t } l).UsersSeen := by
    rw [hl']
    exact hg.counts.users.observe ⟨rfl, rfl, rfl⟩
  refine hg.user (hid.trans hcur) (hcounts.observe hseen ?_) (hg.counted.meanwhile hl) rfl
    (by rw [hl']; rfl) hkept (fun i hi => Option.some.inj (hi.symm.trans hcur))
    (iff_of_true rfl hended)
  rw [hl']
  exact ⟨rfl, rfl, rfl⟩

/-- A user ends. -/
theorem Inv.userEnd (hg : g.Inv) {k : ℕ} {cs : List ℕ}
    (h : g.meanwhile (.userEnd k cs) = some g') : g'.Inv := by
  obtain ⟨hid, h⟩ := Option.ite_none_right_eq_some.1 h
  obtain ⟨l, hl, h⟩ := Option.bind_eq_some_iff.1 h
  obtain ⟨u, hu, ha, hl'⟩ := Launcher.meanwhile_userEnd hl
  have hcounts : (g.observe l).Counts := by
    refine hg.counts.observe ?_ (by rw [hl']; exact ⟨rfl, rfl, rfl⟩)
    rw [hl']
    exact hg.counts.users.fall (by simp [Launcher.afterRun, Launcher.setUser])
  obtain ⟨hcounts', hkept, hids, husers, hnum⟩ :=
    hcounts.session (fun b hb => by cases hb; trivial) h
  obtain ⟨id, hcur⟩ := hg.current hid hu
  refine hg.user (hid.trans hcur) hcounts' ((hg.counted.meanwhile hl).congr husers hnum) hids
    (husers.trans (by rw [hl']; rfl)) hkept (fun i hi => ?_)
    (iff_of_true rfl (finish_registered h hcur))
  exact Option.some.inj (hi.symm.trans hcur)

/-- Every step keeps the invariant. -/
theorem Inv.step (hg : g.Inv) {a : Act} (hT : g.Timely a) (h : (sys cfg).step g a = some g') :
    g'.Inv := by
  obtain ⟨-, h⟩ := Option.ite_none_left_eq_some.1 h
  cases a with
  | launcher a =>
    obtain ⟨ha, h⟩ := Option.ite_none_right_eq_some.1 h
    obtain ⟨l, hl, rfl⟩ := Option.map_eq_some_iff.1 h
    exact hg.launcher ha hl
  | tick draws =>
    obtain ⟨l, hl, rfl⟩ := Option.map_eq_some_iff.1 h
    obtain ⟨hpc, -, ⟨-, rfl⟩ | ⟨_, -, -, -, rfl⟩⟩ := Launcher.step_tick hl
    · rw [if_pos rfl]
      exact ⟨hg.counts.observe (hg.counts.users.observe ⟨rfl, rfl, rfl⟩) ⟨rfl, rfl, rfl⟩,
        hg.counted.congr rfl rfl, hg.length, hg.nodup, hg.ids, hg.finished⟩
    · rw [if_neg (by simp [Launcher.startTick])]
      exact hg.startTick draws
  | session a =>
    obtain ⟨-, h⟩ := Option.ite_none_right_eq_some.1 h
    obtain ⟨ha, h⟩ := Option.ite_none_right_eq_some.1 h
    exact hg.session ha (fun b hb => by subst hb; exact hT) h
  | shutDown ids => exact hg.shutDown (Option.ite_none_right_eq_some.1 h).2
  | userStart k => exact hg.userStart (Option.ite_none_right_eq_some.1 h).2
  | userStop k => exact hg.userStop (Option.ite_none_right_eq_some.1 h).2
  | userEnd k cs => exact hg.userEnd (Option.ite_none_right_eq_some.1 h).2

theorem inv_of_reachable (h : (sys cfg).ReachableBy Timely g) : g.Inv :=
  h.invariant (by rintro _ ⟨now, rfl⟩; exact inv_start now) fun _ hg hT hs => hg.step hT hs

/-- As long as no session goes on with an event queued before its top-level session was
    cleaned, the gauges are exact. -/
theorem exact_of_reachable (h : (sys cfg).ReachableBy Timely g) : g.Exact cfg := by
  have hg := inv_of_reachable h
  refine ⟨hg.counted, hg.finished, hg.counts.card, ⟨?_, ?_⟩, fun wakeAt g' hpc hs => ?_⟩
  · rw [hg.counted]
    exact Int.natCast_nonneg _
  · rw [hg.counts.card]
    exact Int.natCast_nonneg _
  · obtain ⟨-, hs⟩ := Option.ite_none_left_eq_some.1 hs
    simp only [act] at hs
    obtain ⟨-, hs⟩ := Option.ite_none_right_eq_some.1 hs
    obtain ⟨l, hl, rfl⟩ := Option.map_eq_some_iff.1 hs
    refine ⟨_, _, _, _, ?_, hg.counts.users.greatest, hg.counts.users.least,
      hg.counts.conns.greatest, hg.counts.conns.least⟩
    rcases Launcher.step_resume hl with ⟨_, -, rfl⟩ | ⟨_, hpc', -⟩ | ⟨_, hpc', -⟩
    · simp only [Gauged.observe, Launcher.wake]
      split <;> rfl
    · rw [hpc] at hpc'
      cases hpc'
    · rw [hpc] at hpc'
      cases hpc'

/-- A user starts, keeps a connection, and ends in the tick that launches it. -/
theorem exact_of_reachable_user : ∃ g : Gauged, (g.launcher.concurUsersNumMax = 1 ∧
    g.launcher.concurConnsNumMax = 1 ∧ g.launcher.concurConnsNum = 0) ∧
    g.Exact (Launcher.shortTest 1 []) := by
  obtain ⟨g, hrun, hg⟩ := System.exists_run_of_execBy (sys (Launcher.shortTest 1 [])) Timely
    (start 0)
    [.launcher .go, .tick [1 / 2], .session (.pool .start), .session (.pool .fetch),
      .session (.pool .yield), .session (.pool .done), .launcher (.advance (1 / 2)),
      .session (.pool (.plan 1)), .session (.pool .start), .session (.pool .fetch), .userStart 0,
      .session (.pool (.connect "10.0.0.1:80" 5)), .session (.pool .done),
      .session (.pool (.event 1)), .session (.pool .start), .session (.pool .fetch),
      .session (.pool (.connected 1)), .session (.pool (.send .all)), .session (.pool .done),
      .session (.pool (.event 1)), .session (.pool .start), .session (.pool .fetch),
      .session (.pool (.received 1 (.done true))), .userEnd 0 [0], .session (.pool .done),
      .launcher (.advance (1 / 2))]
    (fun g => decide (g.launcher.concurUsersNumMax = 1 ∧ g.launcher.concurConnsNumMax = 1 ∧
      g.launcher.concurConnsNum = 0)) (by decide +kernel)
  exact ⟨g, of_decide_eq_true hg, exact_of_reachable (.run (.init ⟨0, rfl⟩) hrun)⟩

/-- A user is shut down, and catches the `STOP`, as does the child 2 of its session 1, which
    calls `parallel` again: the connection of the session 3 is closed when the user ends, and
    once more, with the file descriptor of something else, when the session 3 has its turn with
    the event that had been queued. `on_disconnect` is called twice. -/
theorem reclosed_not_exact : ¬∀ (cfg : Config) (g : Gauged), (sys cfg).Reachable g → g.Exact cfg := by
  intro hall
  obtain ⟨g, hrun, hg⟩ := System.exists_run_of_exec (sys (Launcher.shortTest 1 [])) (start 0)
    [.launcher .go, .tick [1 / 2], .session (.pool .start), .session (.pool .fetch),
      .session (.pool .yield), .session (.pool .done), .launcher (.advance (1 / 2)),
      .session (.pool (.plan 1)), .session (.pool .start), .session (.pool .fetch), .userStart 0,
      .session (.pool (.parallel 1)), .session (.pool .fetch), .session (.pool .yield),
      .session (.pool .done), .shutDown [1, 2], .session (.pool .start), .session (.pool .fetch),
      .session (.pool .yield), .session (.pool .fetch), .session (.pool (.parallel 1)),
      .session (.pool .fetch), .session (.pool (.connect "10.0.0.1:80" 5)),
      .session (.pool .done), .session (.pool (.event 3)), .session (.pool .start),
      .session (.pool .fetch), .session (.pool (.connected 3)), .session (.pool (.send .all)),
      .session (.pool .done), .session (.pool (.plan 1)), .session (.pool (.event 3)),
      .session (.pool .start), .session (.pool .fetch), .userEnd 0 [0],
      .session (.pool (.open 5)), .session (.pool .fetch), .session (.pool (.reclose 3))]
    (fun g => decide (g.launcher.concurConnsNum = -1)) (by decide +kernel)
  have hnum := of_decide_eq_true hg
  have hnonneg := (hall _ g (.run (.init ⟨0, rfl⟩) hrun)).nonneg.2
  rw [hnum] at hnonneg
  exact absurd hnonneg (by decide)

end Gauged

end Mistress
