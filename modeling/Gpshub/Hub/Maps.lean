import Gpshub.Hub.WellFormed

/-! The two user maps: they list the same users, and which ids count as taken. -/
namespace Gpshub
open CommandServer CommandHandler GpsDataServer UserIdGenerator Lib.Machine

structure Inverse (h : Hub) : Prop where
  id : ∀ {i u}, h.idUmap.map i = some (some u) → ∃ usr, h.users u = some usr ∧ usr.id = i ∧
    i ≠ 0 ∧ h.nickUmap.map usr.nick = some (some u)
  nick : ∀ {k u}, h.nickUmap.map k = some (some u) → ∃ usr, h.users u = some usr ∧
    usr.nick = k ∧ h.idUmap.map usr.id = some (some u)

/-- `u` is a user that both maps should know. -/
def Listed (h : Hub) (u : UserRef) (usr : User) : Prop :=
  h.users u = some usr ∧
    (h.idUmap.map usr.id = some (some u) ∨ h.nickUmap.map usr.nick = some (some u))

/-- No two users have the same id or the same nick. -/
def Distinct (h : Hub) : Prop :=
  ∀ u usr v vsr, Listed h u usr → Listed h v vsr →
    (usr.id = vsr.id → u = v) ∧ (usr.nick = vsr.nick → u = v)

/-- The user that an event registers or logs out. -/
def Concerns (h : Hub) : Event → UserRef → Prop
  | .command s pkg, u => LogsIn h (.command s pkg) ∧ u = h.nextUser
  | .close s, u => ∃ session, h.sessions s = some session ∧ session.user = some u
  | _, _ => False

/-- The entries of `u` are the same in `h` and `h'`. -/
def SameEntries (u : UserRef) (h h' : Hub) : Prop :=
  (∀ i, h'.idUmap.map i = some (some u) ↔ h.idUmap.map i = some (some u)) ∧
    ∀ k, h'.nickUmap.map k = some (some u) ↔ h.nickUmap.map k = some (some u)

section Maps

variable {h h' : Hub}

private theorem sameEntries_iff {u : UserRef} : SameEntries u h h' ↔
    (∀ i, h'.idUmap.pointsTo i = some u ↔ h.idUmap.pointsTo i = some u) ∧
      ∀ k, h'.nickUmap.pointsTo k = some u ↔ h.nickUmap.pointsTo k = some u := by
  simp only [SameEntries, SyncHashMap.pointsTo_eq_some]

theorem WellFormed.inverse (hwf : WellFormed h) : Inverse h where
  id := by
    intro i u hi
    obtain ⟨k, ht, hk⟩ := hwf.directory.id (SyncHashMap.pointsTo_eq_some.mpr hi)
    obtain ⟨usr, hu, htag⟩ := WellFormed.tag_eq_some.mp ht
    cases htag
    exact ⟨usr, hu, rfl, (hwf.user hu).2.1, SyncHashMap.pointsTo_eq_some.mp hk⟩
  nick := by
    intro k u hk
    obtain ⟨i, ht, hi⟩ := hwf.directory.name (SyncHashMap.pointsTo_eq_some.mpr hk)
    obtain ⟨usr, hu, htag⟩ := WellFormed.tag_eq_some.mp ht
    cases htag
    exact ⟨usr, hu, rfl, SyncHashMap.pointsTo_eq_some.mp hi⟩

private theorem WellFormed.listed (hwf : WellFormed h) {u : UserRef} {usr : User}
    (hl : Listed h u usr) : h.idUmap.pointsTo usr.id = some u := by
  obtain ⟨hu, hid | hnick⟩ := hl
  · exact SyncHashMap.pointsTo_eq_some.mpr hid
  · exact (hwf.directory.listed_iff (WellFormed.tag_of_user hu)).mpr
      (SyncHashMap.pointsTo_eq_some.mpr hnick)

theorem WellFormed.distinct (hwf : WellFormed h) : Distinct h := by
  intro u usr v vsr hu hv
  exact hwf.directory.unique (WellFormed.tag_of_user hu.1) (WellFormed.tag_of_user hv.1)
    (hwf.listed hu) (hwf.listed hv)

/-- A step leaves the entries of all users alone but of the one it logs in or out. -/
theorem WellFormed.sameEntries (hwf : WellFormed h) {call : Event × Env}
    (hs : Hub.step h call = some h') {u : UserRef} (hu : ¬Concerns h call.1 u) :
    SameEntries u h h' := by
  rw [sameEntries_iff]
  cases step_change hs with
  | accept addr hev => exact ⟨fun _ => Iff.rfl, fun _ => Iff.rfl⟩
  | register s pkg session id q o hev hin hses hnick hne hid =>
    have hun : u ≠ h.nextUser := by
      rintro rfl
      rw [hev] at hu hin
      exact hu ⟨hin, rfl⟩
    constructor
    · intro i
      change (h.idUmap.put id.toInt32 (some h.nextUser)).pointsTo i = some u ↔ _
      rw [SyncHashMap.pointsTo_put]
      exact Lib.Directory.insert_other (SyncHashMap.pointsTo_of_none hid) hun
    · intro k
      change (h.nickUmap.put pkg.getData (some h.nextUser)).pointsTo k = some u ↔ _
      rw [SyncHashMap.pointsTo_put]
      exact Lib.Directory.insert_other (SyncHashMap.pointsTo_of_none hnick) hun
  | close s session hev hses hnone => exact ⟨fun _ => Iff.rfl, fun _ => Iff.rfl⟩
  | logOut s session v vsr hev hses hv hvsr =>
    have huv : u ≠ v := by
      rintro rfl
      rw [hev] at hu
      exact hu ⟨session, hses, hv⟩
    obtain ⟨vsr', hvsr', -, hid⟩ := hwf.login hses hv
    cases hvsr.symm.trans hvsr'
    have hnick := (hwf.directory.listed_iff (WellFormed.tag_of_user hvsr)).mp hid
    constructor
    · intro i
      change (h.idUmap.erase vsr.id).pointsTo i = some u ↔ _
      rw [SyncHashMap.pointsTo_erase]
      exact Lib.Directory.erase_other hid huv
    · intro k
      change (h.nickUmap.erase vsr.nick).pointsTo k = some u ↔ _
      rw [SyncHashMap.pointsTo_erase]
      exact Lib.Directory.erase_other hnick huv
  | frame _ hin hclose hf hid hpend =>
    rw [hid, WellFormed.pointsTo_lookedUpIn, hf.nickUmap]
    exact ⟨fun _ => Iff.rfl, fun _ => Iff.rfl⟩

end Maps

/-- In every reachable state the two maps list the same users, each under its own id and
nick, and a step touches no entries but those of the user it logs in or out. -/
theorem user_maps_inverse {h : Hub} (hr : Reachable Hub.step Hub.Booted h) :
    Inverse h ∧ Distinct h ∧
      ∀ call h', Hub.step h call = some h' → ∀ u, ¬Concerns h call.1 u → SameEntries u h h' := by
  have hwf := WellFormed.of_reachable hr
  exact ⟨hwf.inverse, hwf.distinct, fun call h' hs u hu => hwf.sameEntries hs hu⟩

/-- Two peers connect and register; a datagram then names an id that nobody has. -/
def twoLogins : List (Event × Env) :=
  [(.accept default, default), (.command 0 (.registerNick [97]), default),
    (.accept default, default), (.command 1 (.registerNick [98]), default),
    (.datagram default (intBytes 7 ++ intBytes 0), default)]

theorem user_maps_inverse_two : ∃ h, run Hub.step Hub.boot twoLogins = some h ∧
    h.idUmap.map 2 = some (some 1) ∧ h.idUmap.map 7 = some none ∧ Inverse h :=
  ⟨_, rfl, by decide, by decide, (user_maps_inverse ⟨Hub.boot, twoLogins, rfl, rfl⟩).1⟩

/-- A user with this id is registered. -/
def Held (h : Hub) (i : Int32) : Prop :=
  ∃ u usr, h.users u = some usr ∧ usr.id = i ∧ h.nickUmap.map usr.nick = some (some u)

/-- The keys of `id_umap` are the ids of the registered users. -/
def KeysHeld (h : Hub) : Prop := ∀ i, 0 < h.idUmap.count i ↔ Held h i

/-- `UserIdGenerator` takes every id that nobody has. -/
def SkipsHeld (h : Hub) : Prop :=
  ∀ current, isFree h.idUmap current ↔ ¬Held h current.toInt32 ∧ 0 < current

/-- A datagram or a pulled id leaves the keys of `id_umap` as they are. -/
def KeepsKeys (h : Hub) (call : Event × Env) : Prop :=
  ∀ h' i, Hub.step h call = some h' → h.looksUp call.1 ≠ none →
    h'.idUmap.count i = h.idUmap.count i

/-- The id that a datagram or a broadcast thread looks up is the id of a registered user. -/
def LooksUpHeld (h : Hub) (call : Event × Env) : Prop :=
  ∀ i, h.looksUp call.1 = some i → Held h i

section Keys

variable {h h' : Hub}

theorem held_iff (hwf : WellFormed h) {i : Int32} :
    Held h i ↔ ∃ u, h.idUmap.map i = some (some u) := by
  constructor
  · rintro ⟨u, usr, hu, rfl, hk⟩
    exact ⟨u, SyncHashMap.pointsTo_eq_some.mp (hwf.listed ⟨hu, Or.inr hk⟩)⟩
  · rintro ⟨u, hi⟩
    obtain ⟨usr, hu, hid, -, hk⟩ := hwf.inverse.id hi
    exact ⟨u, usr, hu, hid, hk⟩

/-- The keys are right exactly as long as no lookup has left a `NULL` behind. -/
theorem keysHeld_iff (hwf : WellFormed h) : KeysHeld h ↔ ∀ i, h.idUmap.map i ≠ some none := by
  unfold KeysHeld
  simp only [held_iff hwf, SyncHashMap.count_pos]
  constructor
  · intro hk i hi
    obtain ⟨u, hu⟩ := (hk i).mp ⟨none, hi⟩
    rw [hi] at hu
    cases hu
  · intro hn i
    constructor
    · rintro ⟨p, hp⟩
      cases p with
      | none => exact absurd hp (hn i)
      | some u => exact ⟨u, hp⟩
    · rintro ⟨u, hu⟩
      exact ⟨some u, hu⟩

theorem KeysHeld.skipsHeld (hk : KeysHeld h) : SkipsHeld h := by
  intro current
  have hc := hk current.toInt32
  constructor
  · rintro ⟨h0, hpos⟩
    exact ⟨fun hh => by have := hc.mpr hh; omega, hpos⟩
  · rintro ⟨hh, hpos⟩
    have h0 := mt hc.mp hh
    exact ⟨by omega, hpos⟩

private theorem null_get_iff {m : IdUserMap} (hn : ∀ i, m.map i ≠ some none) (id : Int32) :
    (∀ i, (m.get id).2.map i ≠ some none) ↔ ∃ u, m.map id = some (some u) := by
  constructor
  · intro hg
    have h0 := hg id
    rw [SyncHashMap.map_get] at h0
    cases hm : m.map id with
    | none => exact absurd (if_pos ⟨rfl, hm⟩) h0
    | some p =>
      cases p with
      | none => exact absurd hm (hn id)
      | some u => exact ⟨u, rfl⟩
  · rintro ⟨u, hu⟩ i
    rw [SyncHashMap.get_of_some hu]
    exact hn i

/-- One step keeps the keys right exactly if it looks up no unknown id. -/
theorem keysHeld_step {call : Event × Env} (hs : Hub.step h call = some h')
    (hwf : WellFormed h) (hk : KeysHeld h) : KeysHeld h' ↔ LooksUpHeld h call := by
  have hn := (keysHeld_iff hwf).mp hk
  have hlook (hl : h.looksUp call.1 = none) : LooksUpHeld h call := by
    intro i hi
    rw [hl] at hi
    cases hi
  rw [keysHeld_iff (hwf.step hs)]
  cases step_change hs with
  | accept addr hev => exact iff_of_true hn (hlook (by rw [hev]; rfl))
  | register s pkg session id q o hev hin hses hnick hne hid =>
    refine iff_of_true (fun i => ?_) (hlook (by rw [hev]; rfl))
    change Function.update h.idUmap.map id.toInt32 (some (some h.nextUser)) i ≠ some none
    by_cases hi : i = id.toInt32
    · subst hi
      simp
    · rw [Function.update_of_ne hi]
      exact hn i
  | close s session hev hses hu => exact iff_of_true hn (hlook (by rw [hev]; rfl))
  | logOut s session u usr hev hses hu husr =>
    refine iff_of_true (fun i => ?_) (hlook (by rw [hev]; rfl))
    change Function.update h.idUmap.map usr.id none i ≠ some none
    by_cases hi : i = usr.id
    · subst hi
      simp
    · rw [Function.update_of_ne hi]
      exact hn i
  | frame _ hin hclose hf hid hpend =>
    rw [hid]
    cases hl : h.looksUp call.1 with
    | none => exact iff_of_true hn (hlook hl)
    | some id =>
      refine (null_get_iff hn id).trans ?_
      rw [← held_iff hwf]
      constructor
      · intro hh i hi
        rw [hl] at hi
        cases hi
        exact hh
      · intro hg
        exact hg id hl

theorem keepsKeys_of_held {call : Event × Env} (hwf : WellFormed h)
    (hg : LooksUpHeld h call) : KeepsKeys h call := by
  intro h' i hs hl
  cases step_change hs with
  | frame _ hin hclose hf hid hpend =>
    obtain ⟨id, hid'⟩ := Option.ne_none_iff_exists'.mp hl
    obtain ⟨u, hu⟩ := (held_iff hwf).mp (hg id hid')
    rw [hid, hid', lookedUpIn, SyncHashMap.get_of_some hu]
  | accept addr hev => rfl
  | register s pkg session id q o hev hin hses hnick hne hid =>
    rw [hev] at hl
    exact absurd rfl hl
  | close s session hev hses hu => rfl
  | logOut s session u usr hev hses hu husr =>
    rw [hev] at hl
    exact absurd rfl hl

end Keys

/-- Along a run the keys of `id_umap` stay the ids of the registered users, and no lookup
changes them or makes the generator skip a free id, exactly if every id that is looked up
is the id of a registered user. -/
theorem keys_held_iff (calls : List (Event × Env)) :
    Always Hub.step (fun h => KeysHeld h ∧ SkipsHeld h) Hub.boot calls ∧
        Guarded Hub.step KeepsKeys Hub.boot calls ↔
      Guarded Hub.step LooksUpHeld Hub.boot calls := by
  have hboot : KeysHeld Hub.boot := (keysHeld_iff .boot).mpr (by simp [Hub.boot, SyncHashMap.empty])
  refine always_and_guarded_iff (fun _ _ _ => WellFormed.step) (fun h call h' hs hwf hk => ?_)
    .boot ⟨hboot, hboot.skipsHeld⟩
  have hiff := keysHeld_step hs hwf hk.1
  constructor
  · rintro ⟨hk', -⟩
    exact hiff.mp hk'.1
  · intro hg
    have hk' := hiff.mpr hg
    exact ⟨⟨hk', hk'.skipsHeld⟩, keepsKeys_of_held hwf hg⟩

/-- A datagram that names the id 1. -/
def unknownId : Event × Env := (.datagram default (intBytes 1 ++ intBytes 0), default)

/-- Nobody is registered yet, and after that datagram the id counts as taken. -/
theorem keys_held_counterexample :
    ¬∀ calls, Always Hub.step (fun h => KeysHeld h ∧ SkipsHeld h) Hub.boot calls ∧
      Guarded Hub.step KeepsKeys Hub.boot calls := by
  intro hall
  obtain ⟨h, hs, hc, hu⟩ : ∃ h, Hub.step Hub.boot unknownId = some h ∧
      0 < h.idUmap.count 1 ∧ ∀ u, h.users u = none := ⟨_, rfl, by decide, fun _ => rfl⟩
  have hk := ((hall [unknownId]).1.2 h hs).1
  obtain ⟨u, usr, husr, -⟩ := (hk 1).mp hc
  rw [hu] at husr
  cases husr

end Gpshub
