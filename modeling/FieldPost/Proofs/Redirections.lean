import FieldPost.Http

/-!
Where answers lead a client. After some of them it asks for another address and sends nothing, after
others it sends the same there once more, and a form is never sent twice. It follows ten times at
most, and what it reports is what the last of its requests met with. Without an answer that leads
elsewhere it makes no request of its own.

Which addresses an answer may name is not said here, only that the client follows to those it can
send requests to.
-/

namespace FieldPost.Http

open FieldPost.Text

/-- After this reply to what it sent, a client makes that request. -/
inductive Redirects : Option Content → Reply → Hop → Prop
  | asks (sent : Option Content) (status : Nat) (contentType : Option String) (body : Bytes)
      (whole : Bool) (url : Url) (moved : status = 301 ∨ status = 302 ∨ status = 303) :
      Redirects sent (.answer status contentType body whole (some url)) ⟨url, none⟩
  | sendsAgain (sent : Option Content) (status : Nat) (contentType : Option String) (body : Bytes)
      (whole : Bool) (url : Url) (moved : status = 307 ∨ status = 308)
      (unstreamed : ∀ parts, sent ≠ some (.form parts)) :
      Redirects sent (.answer status contentType body whole (some url)) ⟨url, sent⟩

/-- The reply to what was sent and, as long as each of them leads elsewhere, the replies after it,
with the requests they led to and what the last of them says. -/
inductive Reaches : Option Content → List Reply → List Hop → Response → Prop
  | here (sent : Option Content) (replies : List Reply)
      (stays : ∀ hop, ¬ Redirects sent (replies.headD Peer.accepting) hop) :
      Reaches sent replies [] (replies.headD Peer.accepting).response
  | onward {sent : Option Content} {replies : List Reply} {hop : Hop} {hops : List Hop}
      {response : Response} (leads : Redirects sent (replies.headD Peer.accepting) hop)
      (rest : Reaches hop.content replies.tail hops response) :
      Reaches sent replies (hop :: hops) response

/-- No reply leads elsewhere, whatever was sent. -/
def Straight (replies : List Reply) : Prop :=
  ∀ reply ∈ replies, ∀ sent hop, ¬ Redirects sent reply hop

theorem content_elsewhere_eq_some_iff (status : Nat) (sent content : Option Content) :
    contentElsewhere status sent = some content ↔
      (status = 301 ∨ status = 302 ∨ status = 303) ∧ content = none ∨
        (status = 307 ∨ status = 308) ∧ (∀ parts, sent ≠ some (.form parts)) ∧ content = sent := by
  unfold contentElsewhere
  split
  · rename_i asks
    have other : ¬(status = 307 ∨ status = 308) := by omega
    simp [asks, other, eq_comm]
  · rename_i stays
    split
    · rename_i again
      split
      · simp [stays]
      · rename_i unstreamed
        simpa [stays, again, eq_comm] using fun _ : sent = content => unstreamed
    · rename_i settled
      simp [stays, settled]

theorem hop_eq_some_iff (sent : Option Content) (reply : Reply) (hop : Hop) :
    reply.hop? sent = some hop ↔ Redirects sent reply hop := by
  constructor
  · intro leads
    rcases reply with _ | ⟨status, contentType, body, whole, _ | url⟩
    · cases leads
    · cases leads
    · obtain ⟨content, elsewhere, rfl⟩ := Option.map_eq_some_iff.mp leads
      rcases (content_elsewhere_eq_some_iff _ _ _).mp elsewhere with
        ⟨moved, rfl⟩ | ⟨moved, unstreamed, rfl⟩
      · exact .asks sent status contentType body whole url moved
      · exact .sendsAgain _ status contentType body whole url moved unstreamed
  · intro leads
    cases leads with
    | asks status contentType body whole url moved =>
        exact Option.map_eq_some_iff.mpr
          ⟨none, (content_elsewhere_eq_some_iff _ _ _).mpr (.inl ⟨moved, rfl⟩), rfl⟩
    | sendsAgain status contentType body whole url moved unstreamed =>
        exact Option.map_eq_some_iff.mpr
          ⟨sent, (content_elsewhere_eq_some_iff _ _ _).mpr (.inr ⟨moved, unstreamed, rfl⟩), rfl⟩

theorem hop_eq_none_iff (sent : Option Content) (reply : Reply) :
    reply.hop? sent = none ↔ ∀ hop, ¬ Redirects sent reply hop := by
  rw [Option.eq_none_iff_forall_ne_some]
  exact forall_congr' fun hop => not_congr (hop_eq_some_iff sent reply hop)

/-- A hop sends nothing, or what was sent before unless that was a form. -/
def Hop.Repeats (sent : Option Content) (hop : Hop) : Prop :=
  hop.content = none ∨ (∀ parts, sent ≠ some (.form parts)) ∧ hop.content = sent

theorem Redirects.repeats {sent : Option Content} {reply : Reply} {hop : Hop}
    (leads : Redirects sent reply hop) : hop.Repeats sent := by
  cases leads with
  | asks => exact .inl rfl
  | sendsAgain _ _ _ _ _ _ unstreamed => exact .inr ⟨unstreamed, rfl⟩

theorem Hop.Repeats.trans {sent : Option Content} {first later : Hop}
    (early : first.Repeats sent) (late : later.Repeats first.content) : later.Repeats sent := by
  rcases late with nothing | ⟨_, same⟩
  · exact .inl nothing
  · unfold Hop.Repeats
    rwa [same]

/-- What a client does that may follow so often. -/
structure Follows (left : Nat) (sent : Option Content) (replies : List Reply) (trail : Trail) :
    Prop where
  atMost : trail.hops.length ≤ left
  usable : ∀ hop ∈ trail.hops, hop.isUsable = true
  repeats : ∀ hop ∈ trail.hops, hop.Repeats sent
  remaining : trail.replies <:+ replies
  reaches : (∃ reason, trail.response = .astray reason) ∨
    Reaches sent replies trail.hops trail.response

/-- A trail that ends with the first reply. -/
theorem Follows.ended {left : Nat} {sent : Option Content} {replies : List Reply}
    {response : Response}
    (reaches : (∃ reason, response = .astray reason) ∨ Reaches sent replies [] response) :
    Follows left sent replies ⟨response, [], replies.tail⟩ where
  atMost := Nat.zero_le left
  usable := nofun
  repeats := nofun
  remaining := List.tail_suffix replies
  reaches := reaches

theorem Follows.after {left : Nat} {sent : Option Content} {replies : List Reply} {trail : Trail}
    {hop : Hop} (leads : Redirects sent (replies.headD Peer.accepting) hop)
    (usable : hop.isUsable = true) (rest : Follows left hop.content replies.tail trail) :
    Follows (left + 1) sent replies (trail.after hop) where
  atMost := Nat.succ_le_succ rest.atMost
  usable := List.forall_mem_cons.mpr ⟨usable, rest.usable⟩
  repeats := List.forall_mem_cons.mpr
    ⟨leads.repeats, fun later member => leads.repeats.trans (rest.repeats later member)⟩
  remaining := rest.remaining.trans (List.tail_suffix replies)
  reaches := rest.reaches.imp id (.onward leads)

theorem follows_follow (left : Nat) (place : String) (sent : Option Content)
    (replies : List Reply) : Follows left sent replies (Trail.follow left place sent replies) := by
  induction left generalizing place sent replies with
  | zero =>
      unfold Trail.follow
      dsimp only
      split
      · rename_i stays
        exact .ended (.inr (.here sent replies ((hop_eq_none_iff _ _).mp stays)))
      · exact .ended (.inl ⟨_, rfl⟩)
  | succ left induction =>
      unfold Trail.follow
      dsimp only
      split
      · rename_i stays
        exact .ended (.inr (.here sent replies ((hop_eq_none_iff _ _).mp stays)))
      · rename_i hop leads
        split
        · rename_i usable
          exact .after ((hop_eq_some_iff _ _ _).mp leads) usable (induction _ _ _)
        · exact .ended (.inl ⟨_, rfl⟩)

/-- Where the first reply leads nowhere, no request follows. -/
theorem hops_of_stays (left : Nat) (place : String) {sent : Option Content} {replies : List Reply}
    (stays : ∀ hop, ¬ Redirects sent (replies.headD Peer.accepting) hop) :
    (Trail.follow left place sent replies).hops = [] := by
  unfold Trail.follow
  dsimp only
  rw [(hop_eq_none_iff _ _).mpr stays]

theorem Straight.stays {replies : List Reply} (straight : Straight replies) (sent : Option Content)
    (hop : Hop) : ¬ Redirects sent (replies.headD Peer.accepting) hop := by
  intro leads
  cases replies with
  | nil => cases leads
  | cons reply rest => exact straight reply List.mem_cons_self sent hop leads

theorem Straight.later {replies left : List Reply} (straight : Straight replies)
    (remaining : left <:+ replies) : Straight left :=
  fun reply member => straight reply (remaining.mem member)

/-! ### A whole exchange -/

/-- A peer keeps what it was sent, and answers with what is left of its replies. -/
structure Peer.GoesOn (before after : Peer) : Prop where
  received : before.received <+: after.received
  followed : before.followed <+: after.followed
  remaining : after.replies <:+ before.replies

namespace Peer

theorem GoesOn.refl (peer : Peer) : peer.GoesOn peer :=
  ⟨List.prefix_rfl, List.prefix_rfl, List.suffix_rfl⟩

theorem GoesOn.trans {first second third : Peer} (early : first.GoesOn second)
    (late : second.GoesOn third) : first.GoesOn third :=
  ⟨early.received.trans late.received, early.followed.trans late.followed,
    late.remaining.trans early.remaining⟩

variable {peer : Peer} {request : Request}

theorem exchange_goes_on (peer : Peer) (request : Request) :
    peer.GoesOn (peer.exchange request).2 := by
  unfold exchange
  split
  · exact ⟨List.prefix_append _ _, List.prefix_append _ _, (follows_follow _ _ _ _).remaining⟩
  · exact .refl peer

/-- What a peer that answered has kept of a request: the request itself, and those that followed. -/
structure Keeps (peer : Peer) (request : Request) (response : Response) (hops : List Hop)
    (after : Peer) : Prop where
  received : after.received = peer.received ++ [request]
  followed : after.followed = peer.followed ++ hops
  reaches : Reaches (some request.content) peer.replies hops response
  atMost : hops.length ≤ hopLimit
  usable : ∀ hop ∈ hops, hop.isUsable = true
  repeats : ∀ hop ∈ hops, hop.Repeats (some request.content)

theorem keeps_of_answer {status : Nat} {contentType : Option String} {body : Bytes} {whole : Bool}
    (answered : (peer.exchange request).1 = .answer status contentType body whole) :
    ∃ hops, Keeps peer request (.answer status contentType body whole) hops
      (peer.exchange request).2 := by
  unfold exchange at answered ⊢
  split at answered
  · rename_i reachable
    have follows := follows_follow hopLimit request.url (some request.content) peer.replies
    have reported : (Trail.follow hopLimit request.url (some request.content)
        peer.replies).response = .answer status contentType body whole := answered
    rw [if_pos reachable]
    refine ⟨_, rfl, rfl, ?_, follows.atMost, follows.usable, follows.repeats⟩
    rcases follows.reaches with ⟨reason, astray⟩ | reaches
    · cases reported.symm.trans astray
    · rwa [reported] at reaches
  · cases answered

/-- Only the request that was made is new among those received. -/
theorem new_of_exchange {other : Request}
    (member : other ∈ (peer.exchange request).2.received.drop peer.received.length) :
    other = request := by
  unfold exchange at member
  split at member
  · rw [List.drop_left] at member
    exact List.mem_singleton.mp member
  · rw [List.drop_length] at member
    cases member

theorem followed_of_straight (straight : Straight peer.replies) (request : Request) :
    (peer.exchange request).2.followed = peer.followed := by
  unfold exchange
  split
  · dsimp only
    rw [hops_of_stays hopLimit request.url (straight.stays _), List.append_nil]
  · rfl

end Peer

end FieldPost.Http
