import Gpshub.Hub.Gathering

/-! What `malloc` and `new` leave in a block: none of it is sent, unless a list of buddies
repeats a name. -/
namespace Gpshub
open CommandServer CommandHandler GpsDataServer CoordsBroadcastThread UserIdGenerator Hub

/-- The bytes in the block of a package, and the fields that a new `User` does not set. -/
structure Leftovers where
  junk : ℕ → UInt8
  addrUdp : SockAddr
  token : Int32
  deriving Inhabited

/-- The same call in memory with other contents. -/
def Env.over (env : Env) (l : Leftovers) : Env :=
  { env with junk := l.junk, addrUdp := l.addrUdp, token := l.token }

/-- Whenever `x` returns, `y` returns the same. -/
def Follows {α : Type} (x y : Except Abort α) : Prop := ∀ a, x = .ok a → y = .ok a

namespace Follows

variable {α β : Type} {x y : Except Abort α} {f g : α → Except Abort β}

theorem refl (x : Except Abort α) : Follows x x := fun _ he => he

theorem bind (hx : Follows x y) (hf : ∀ a, x = .ok a → Follows (f a) (g a)) :
    Follows (x >>= f) (y >>= g) := by
  intro b he
  obtain ⟨a, ha, hb⟩ := bind_eq_ok.mp he
  exact bind_eq_ok.mpr ⟨a, hx a ha, hf a ha b hb⟩

end Follows

section Packages

variable (env env' : Env)

theorem set_last {a : List UInt8} {n : ℕ} (ha : a.length = n + 1) (b : UInt8) :
    a.set n b = a.take n ++ [b] := by
  have hn : n < a.length := by omega
  rw [List.set_eq_take_append_cons_drop, if_pos hn, List.drop_of_length_le (by omega)]

/-- A fresh package has its header, room for the data and the terminator. -/
theorem new_layout (junk : ℕ → UInt8) (type : UInt8) {len : UInt16} (hlen : 3 ≤ len.toNat) :
    ∃ data, data.length + 3 = len.toNat ∧
      CmdPkg.new junk type len = .ok ⟨type :: (shortBytes len ++ (data ++ [0]))⟩ := by
  obtain ⟨n, hn⟩ := Nat.exists_eq_add_of_le' hlen
  have hmem : ((List.range (len.toNat + 1)).map junk).length = len.toNat + 1 := by simp
  unfold CmdPkg.new
  generalize (List.range (len.toNat + 1)).map junk = mem at hmem
  rcases mem with _ | ⟨x, _ | ⟨y, _ | ⟨z, rest⟩⟩⟩
  · cases hmem
  · exact absurd hmem (by rw [hn]; nofun)
  · exact absurd hmem (by rw [hn]; nofun)
  · have hrest : rest.length = n + 1 := by
      simp only [List.length_cons] at hmem
      omega
    have hset : (x :: y :: z :: rest).set len.toNat 0 = x :: y :: z :: (rest.take n ++ [0]) := by
      rw [hn, ← set_last hrest]
      rfl
    refine ⟨rest.take n, by rw [List.length_take]; omega, ?_⟩
    dsimp only
    rw [store_eq (by omega), hset]
    rfl

theorem drop_patch {mem src : List UInt8} {i k : ℕ} (hi : i + src.length ≤ mem.length)
    (hk : i + src.length ≤ k) :
    (mem.take i ++ src ++ mem.drop (i + src.length)).drop k = mem.drop k := by
  have hlen : (mem.take i ++ src).length = i + src.length := by
    rw [List.length_append, List.length_take]
    omega
  obtain ⟨d, rfl⟩ := Nat.exists_eq_add_of_le hk
  rw [← hlen, List.drop_length_add_append, List.drop_drop]

theorem writeIds_drop (ids : List (Int32 × Nick)) : ∀ {offset k : ℕ} {p q : CmdPkg},
    writeIds ids offset p = .ok q → 3 + offset + (ids.flatMap idEntry).length ≤ k →
      q.bytes.length = p.bytes.length ∧ q.bytes.drop k = p.bytes.drop k := by
  induction ids with
  | nil =>
    intro offset k p q he _
    cases he
    exact ⟨rfl, rfl⟩
  | cons e ids ih =>
    intro offset k p q he hk
    obtain ⟨id, nick⟩ := e
    obtain ⟨p1, h1, he⟩ := bind_eq_ok.mp he
    obtain ⟨p2, h2, he⟩ := bind_eq_ok.mp he
    simp only [List.flatMap_cons, List.length_append, idEntry, intBytes_length,
      List.length_singleton] at hk
    obtain ⟨hroom1, hp1⟩ := CmdPkg.setInt_eq_ok h1
    obtain ⟨hroom2, hp2⟩ := CmdPkg.setBytes_eq_ok h2
    have hend : (nick ++ [0]).length = nick.length + 1 := by simp
    obtain ⟨hlen, hdrop⟩ := ih (k := k) he (by omega)
    have hlen2 := memcpy_length (memcpy_eq hroom2)
    have hroom1 : 3 + offset + (intBytes id.toUInt32).length ≤ p.bytes.length := hroom1
    have hlen1 := memcpy_length (memcpy_eq hroom1)
    constructor
    · rw [hlen, hp2, hlen2, hp1]
      exact hlen1
    · rw [hdrop, hp2, drop_patch hroom2 (by omega), hp1]
      exact drop_patch hroom1 (by rw [intBytes_length]; omega)

theorem writeIds_fill {type : UInt8} {len : UInt16} {data : List UInt8}
    {ids : List (Int32 × Nick)} {q : CmdPkg} (hdata : data.length = (ids.flatMap idEntry).length)
    (he : writeIds ids 0 ⟨type :: (shortBytes len ++ (data ++ [0]))⟩ = .ok q) :
    q = ⟨type :: (shortBytes len ++ (ids.flatMap idEntry ++ [0]))⟩ := by
  obtain ⟨rest, hbytes⟩ := writeIds_eq_ok ids he
  obtain ⟨-, hdrop⟩ := writeIds_drop ids he le_rfl
  have hhead : (type :: (shortBytes len ++ (data ++ [0]))).take (3 + 0) =
      type :: shortBytes len := rfl
  have hlast : (type :: (shortBytes len ++ (data ++ [0]))).drop
      (3 + 0 + (ids.flatMap idEntry).length) = [0] := by
    rw [← hdata, ← List.cons_append, ← List.append_assoc]
    apply List.drop_left'
    simp only [List.length_append, List.length_cons, shortBytes_length]
  have hrest : q.bytes.drop (3 + 0 + (ids.flatMap idEntry).length) = rest := by
    rw [hbytes, hhead]
    apply List.drop_left'
    simp only [List.length_append, List.length_cons, shortBytes_length]
  rw [hhead, ← hrest, hdrop, hlast, List.append_assoc] at hbytes
  obtain ⟨bytes⟩ := q
  exact congrArg CmdPkg.mk hbytes

theorem new_length {junk : ℕ → UInt8} {type : UInt8} {len : UInt16} {p : CmdPkg}
    (he : CmdPkg.new junk type len = .ok p) : p.bytes.length = len.toNat + 1 := by
  obtain ⟨a, ha, he⟩ := bind_eq_ok.mp he
  obtain ⟨b, hb, he⟩ := bind_eq_ok.mp he
  obtain ⟨c, hc, he⟩ := bind_eq_ok.mp he
  cases he
  unfold store at ha hb
  split_ifs at ha hb
  cases ha
  cases hb
  rw [memcpy_length hc]
  simp

/-- A package that is as long as its entries shows nothing of what was in its block. -/
theorem idsPkg_follows {ids : List (Int32 × Nick)} {len : ℕ}
    (hlen : nicksLen (ids.map Prod.snd) = len) :
    Follows (idsPkg env ids len) (idsPkg env' ids len) := by
  intro q he
  obtain ⟨p, hp, he⟩ := bind_eq_ok.mp he
  have hentries := idEntries_length ids
  rw [hlen] at hentries
  have hthree := (CmdPkg.new_eq_ok hp).2
  have hplen := new_length hp
  obtain ⟨rest, hbytes⟩ := writeIds_eq_ok ids he
  obtain ⟨hqlen, -⟩ := writeIds_drop ids he le_rfl
  have hnat : (UInt16.ofNat (len + 3 + 4 * ids.length)).toNat = len + 3 + 4 * ids.length := by
    have hfits := congrArg List.length hbytes
    rw [hqlen, hplen] at hfits
    simp only [List.length_append, List.length_take, UInt16.toNat_ofNat'] at hfits hplen ⊢
    omega
  have hroom : 3 ≤ (UInt16.ofNat (len + 3 + 4 * ids.length)).toNat := by omega
  obtain ⟨data, hdata, hnew⟩ := new_layout env.junk CmdPkg.BUDDIES_IDS hroom
  obtain ⟨data', hdata', hnew'⟩ := new_layout env'.junk CmdPkg.BUDDIES_IDS hroom
  cases hp.symm.trans hnew
  have hfits' : 3 + 0 + (ids.flatMap idEntry).length ≤ (CmdPkg.BUDDIES_IDS ::
      (shortBytes (.ofNat (len + 3 + 4 * ids.length)) ++ (data' ++ [0]))).length := by
    simp only [List.length_cons, List.length_append, shortBytes_length]
    omega
  obtain ⟨q', he', -⟩ := writeIds_ok (p := ⟨_⟩) ids hfits'
  rw [idsPkg, hnew', ok_bind, he', writeIds_fill (by omega) he, writeIds_fill (by omega) he']

theorem uidPkg_follows (usr : User) : Follows (uidPkg env usr) (uidPkg env' usr) := by
  rw [uidPkg_eq, uidPkg_eq]
  exact idsPkg_follows env env' (by simp [nicksLen])

end Packages

section Handlers

variable (env : Env) (l : Leftovers) {s : SessionRef} {u : UserRef} {h : Hub}

theorem addBuddy_follows (nick : Nick) (st : AddState) :
    Follows (addBuddy env s u nick st h) (addBuddy (env.over l) s u nick st h) := by
  unfold addBuddy
  refine .bind (.refl _) fun user _ => ?_
  dsimp only
  split_ifs
  · exact .bind (.refl _) fun _ _ => .bind (.refl _) fun _ _ =>
      .bind (uidPkg_follows _ _ _) fun _ _ => .refl _
  · exact .refl _

theorem addAll_follows (nicks : List Nick) : ∀ {st : AddState} {h : Hub},
    Follows (addAll env s u nicks st h) (addAll (env.over l) s u nicks st h) := by
  induction nicks with
  | nil => exact fun {st h} => .refl _
  | cons nick rest ih =>
    intro st h
    exact .bind (addBuddy_follows env l nick st) fun _ _ => ih

theorem addAll_names {env : Env} (nicks : List Nick) : ∀ {st st' : AddState} {h h' : Hub},
    addAll env s u nicks st h = .ok (st', h') →
      ∀ nick ∈ listed h nicks, ∃ id, Names h (id, nick) := by
  induction nicks with
  | nil => exact fun _ => nofun
  | cons nick rest ih =>
    intro st st' h h' he n hn
    obtain ⟨⟨st1, h1⟩, h1e, he⟩ := bind_eq_ok.mp he
    have hf := (addBuddy_edits h1e).quiet.toFrame
    obtain ⟨hmem, hcount⟩ := List.mem_filter.mp hn
    rcases List.mem_cons.mp hmem with rfl | hmem
    · rcases addBuddy_eq_ok h1e with ⟨hnot, -⟩ | ⟨-, id, hnames, -⟩
      · exact absurd (of_decide_eq_true hcount) hnot
      · exact ⟨id, hnames⟩
    · have hrest : n ∈ listed h1 rest := by
        rw [hf.listed_eq]
        exact List.mem_filter.mpr ⟨hmem, hcount⟩
      obtain ⟨id, hnames⟩ := ih he n hrest
      exact ⟨id, (hf.names_iff _).mp hnames⟩

theorem addBuddies_follows (hwf : WellFormed h) {pkg : CmdPkg}
    (hd : l.junk = env.junk ∨ (listed h (addFields pkg.getData)).Nodup) :
    Follows (addBuddies env pkg s h) (addBuddies (env.over l) pkg s h) := by
  unfold addBuddies
  refine .bind (.refl _) fun session _ => ?_
  cases session.user with
  | none => exact .refl _
  | some usr =>
    refine .bind (addAll_follows env l _) fun r hr => ?_
    obtain ⟨st, h1⟩ := r
    have hg := (Gathered.start h).addAll _ hwf hr
    rw [List.nil_append] at hg
    have hpkg : Follows (idsPkg env st.idsMap st.idsPkgLen)
        (idsPkg (env.over l) st.idsMap st.idsPkgLen) := by
      rcases hd with hj | hd
      · have hsame : idsPkg (env.over l) st.idsMap st.idsPkgLen =
            idsPkg env st.idsMap st.idsPkgLen := by
          unfold idsPkg Env.over
          rw [hj]
        rw [hsame]
        exact .refl _
      · exact idsPkg_follows _ _ ((hg.room (addAll_names _ hr)).2.mpr hd)
    dsimp only
    split_ifs
    · exact .bind hpkg fun _ _ => .refl _
    · exact .refl _

theorem send_setUser (v : UserRef) (usr : User) (p : CmdPkg) (answer : SendResult) :
    send (h.setUser v usr) s p answer = (fun h => h.setUser v usr) <$> send h s p answer := by
  unfold send
  have hs : (h.setUser v usr).session s = h.session s := rfl
  rw [hs]
  cases h.session s with
  | error e => rfl
  | ok session => cases answer <;> rfl

theorem logIn_setUser (env env' : Env) (nick : Nick) (id : UInt32) (session : Session) :
    logIn env' nick id s session h =
      (logIn env nick id s session h).setUser h.nextUser (registerUser env' nick id session) := by
  simp [logIn, setUser, setSession]

theorem logIn_send (env env' : Env) (nick : Nick) (id : UInt32) (session : Session) (p : CmdPkg)
    (answer : SendResult) (token : Int32) (rest : Hub → Except Abort Hub)
    (ha : env'.addrUdp = env.addrUdp) :
    (do
      let h1 ← send (logIn env' nick id s session h) s p answer
      let user ← h1.deref h.nextUser
      rest (h1.setUser h.nextUser (user.setToken token))) = (do
      let h1 ← send (logIn env nick id s session h) s p answer
      let user ← h1.deref h.nextUser
      rest (h1.setUser h.nextUser (user.setToken token))) := by
  have hset (usr : User)
      (hu : usr.setToken token = (registerUser env nick id session).setToken token) : (do
        let h1 ← send ((logIn env nick id s session h).setUser h.nextUser usr) s p answer
        let user ← h1.deref h.nextUser
        rest (h1.setUser h.nextUser (user.setToken token))) = (do
        let h1 ← send (logIn env nick id s session h) s p answer
        rest (h1.setUser h.nextUser ((registerUser env nick id session).setToken token))) := by
    rw [send_setUser]
    cases send (logIn env nick id s session h) s p answer with
    | error e => rfl
    | ok h1 => simp [ok_bind, deref, setUser, hu]
  have hsame : (registerUser env' nick id session).setToken token =
      (registerUser env nick id session).setToken token := by
    simp [registerUser, User.new, User.setSockPtr, User.setToken, ha]
  have hnew := hset _ hsame
  have hold := hset _ rfl
  rw [← logIn_setUser] at hnew hold
  exact hnew.trans hold.symm

theorem registerNick_follows (ha : l.addrUdp = env.addrUdp) (pkg : CmdPkg) :
    Follows (registerNick env pkg s h) (registerNick (env.over l) pkg s h) := by
  unfold registerNick
  dsimp only
  split_ifs
  · exact .refl _
  · cases generate ULONG_MAX h.idUmap h.current with
    | none => exact .refl _
    | some r =>
      obtain ⟨id, current⟩ := r
      dsimp only
      split_ifs
      · exact .refl _
      · refine .bind (.refl _) fun session _ => .bind (.refl _) fun p _ => ?_
        have hsend := @logIn_send s { h with current } env (env.over l) pkg.getData id session p
          (env.answer 0) env.rand (fun h => initUdp env env.rand >>= fun pkgInit =>
            send h s pkgInit (env.answer 1)) ha
        exact fun h' he => hsend.trans he

theorem sendAll_over (coords : Coordinates) (nicks : List Nick) : ∀ {k : ℕ} {h : Hub},
    sendAll (env.over l) u coords nicks k h = sendAll env u coords nicks k h := by
  induction nicks with
  | nil => exact fun {k h} => rfl
  | cons nick rest ih =>
    intro k h
    simp only [sendAll, ih]
    rfl

theorem turn_over (id : Int32) : turn (env.over l) id h = turn env id h := by
  unfold turn broadcast
  simp only [sendAll_over]
  rfl

theorem dispatch_pull_over : dispatch (env.over l) h .pull = dispatch env h .pull := by
  unfold dispatch
  simp only [turn_over]

/-- The command is no list of buddies that repeats a registered name, and the datagram does not
bring coordinates that are taken for a user with an unset address. -/
def Determined (h : Hub) : Event → Prop
  | .command _ pkg =>
    pkg.getType = CmdPkg.ADD_BUDDIES → (listed h (addFields pkg.getData)).Nodup
  | .datagram theirAddr bytes => bytes.length = 12 ∨ bytes.length = 16 →
    ∀ u ∈ h.idUmap.pointsTo (toint bytes 0), ∀ usr ∈ h.users u,
      socketEquals theirAddr usr.addrUdp → usr.udpReady
  | _ => True

instance (h : Hub) : (ev : Event) → Decidable (Determined h ev)
  | .command _ pkg => inferInstanceAs (Decidable
    (pkg.getType = CmdPkg.ADD_BUDDIES → (listed h (addFields pkg.getData)).Nodup))
  | .datagram theirAddr bytes => inferInstanceAs (Decidable (bytes.length = 12 ∨ bytes.length = 16 →
    ∀ u ∈ h.idUmap.pointsTo (toint bytes 0), ∀ usr ∈ h.users u,
      socketEquals theirAddr usr.addrUdp → usr.udpReady))
  | .accept _ | .writable _ | .close _ | .timeout | .put _ | .pull => isTrue trivial

/-- What memory held before makes no difference to a handler that returns, apart from the
address in a new user and the bytes that nothing is written to. -/
theorem dispatch_follows (hwf : WellFormed h) (ha : l.addrUdp = env.addrUdp) {ev : Event}
    (hd : l.junk = env.junk ∨ Determined h ev) :
    Follows (dispatch env h ev) (dispatch (env.over l) h ev) := by
  cases ev with
  | accept addr => exact .refl _
  | command s pkg =>
    refine .bind (.refl _) fun _ _ => ?_
    unfold handle
    split_ifs with hreg hadd
    · exact registerNick_follows env l ha pkg
    · exact addBuddies_follows env l hwf (hd.imp_right fun hd => hd hadd)
    · exact .refl _
    · exact .refl _
  | writable s => exact .refl _
  | close s => exact .refl _
  | datagram theirAddr bytes => exact .refl _
  | timeout => exact .refl _
  | put id => exact .refl _
  | pull =>
    rw [dispatch_pull_over]
    exact .refl _

end Handlers
end Gpshub
