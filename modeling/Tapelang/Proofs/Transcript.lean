import Tapelang.Proofs.Lexing

/-!
# The tokens of a whole script

A program text may come from a feed that ends, fails and pauses any number of times. A cursor that
goes on after every end and every fault finds all the commands of all the data, each at its place, and
one token for each end, fault and stall in between, whatever the requests deliver at a time.

* `Feed.arrivals`: what a script comes to for a reader that goes on, said without any requests.
* `Reader.next_hands`: a reader hands out exactly these, one after the other.
* `transcript`: the tokens that arrivals make, each at the last byte passed.
* `Cursor.Passed.tokens`: a cursor finds exactly these, and from then on the tail of the feed.
* `transcript_commands`: their commands are those of all the data, at their places in the data.
* `Cursor.tokens_ofFeed`: all of it for a cursor at the start of a feed.
-/

namespace Tapelang

/-! ## Arrivals -/

namespace Feed

/-- What a reader that goes on after ends and faults gets of a script, after `blanks` empty answers in
a row: every byte, every fault and every end once, and a stall for every `patience` empty answers in a
row. Fewer of them leave no trace. -/
def arrivalsOf : (blanks : Nat) → List Chunk → List Arrival
  | _, [] => []
  | blanks, .data [] :: rest => arrivalsOf blanks rest
  | _, .data (b :: bs) :: rest => (b :: bs).map .byte ++ arrivalsOf 0 rest
  | _, .fault message :: rest => .fault (.refused message) :: arrivalsOf 0 rest
  | blanks, .blank n :: rest =>
    List.replicate ((blanks + n) / patience) (.fault .stalled) ++
      arrivalsOf ((blanks + n) % patience) rest
  | blanks, .ending 0 :: rest => arrivalsOf blanks rest
  | _, .ending (n + 1) :: rest => List.replicate (n + 1) .ending ++ arrivalsOf 0 rest

/-- What the script of a feed comes to. -/
def arrivals (f : Feed) : List Arrival := arrivalsOf 0 f.script

/-- All the data of a script. -/
def dataOf : List Chunk → Bytes
  | [] => []
  | .data bytes :: rest => bytes ++ dataOf rest
  | .fault _ :: rest | .blank _ :: rest | .ending _ :: rest => dataOf rest

/-- All the data of a feed. -/
def data (f : Feed) : Bytes := dataOf f.script

end Feed

/-- What every call meets after the script. -/
def Tail.arrival : Tail → Arrival
  | ending => .ending
  | fault message => .fault (.refused message)

/-- The bytes of an arrival. -/
def Arrival.bytes : Arrival → Bytes
  | byte b => [b]
  | ending | fault _ => []

namespace Feed

theorem arrivalsOf_data (bytes : Bytes) (rest : List Chunk) :
    arrivalsOf 0 (.data bytes :: rest) = bytes.map .byte ++ arrivalsOf 0 rest := by
  cases bytes <;> simp [arrivalsOf]

theorem arrivalsOf_ending (n : Nat) (rest : List Chunk) :
    arrivalsOf 0 (.ending n :: rest) = List.replicate n .ending ++ arrivalsOf 0 rest := by
  cases n <;> simp [arrivalsOf]

/-- The arrivals after `blanks` empty answers in a row, where a reader gives up after `patience` of
them. -/
def afterBlanks (blanks : Nat) (script : List Chunk) : List Arrival :=
  if patience ≤ blanks then .fault .stalled :: arrivalsOf 0 script else arrivalsOf blanks script

/-- The arrivals of a script whose next request is answered by `delivery` and leaves `script`. -/
inductive Follow (tail : Tail) (blanks : Nat) (arrivals : List Arrival) :
    Delivery × List Chunk → Prop
  | data {b : UInt8} {more : Bytes} {script : List Chunk} :
      arrivals = .byte b :: (more.map .byte ++ arrivalsOf 0 script) →
      Follow tail blanks arrivals (.data b more, script)
  | nothing {script : List Chunk} : arrivals = afterBlanks (blanks + 1) script →
      Follow tail blanks arrivals (.nothing, script)
  | ending {script : List Chunk} : arrivals.headD tail.arrival = .ending →
      arrivals.tail = arrivalsOf 0 script → Follow tail blanks arrivals (.ending, script)
  | fault {message : Bytes} {script : List Chunk} :
      arrivals.headD tail.arrival = .fault (.refused message) →
      arrivals.tail = arrivalsOf 0 script → Follow tail blanks arrivals (.fault message, script)

/-- **One request** takes its delivery off the front of the arrivals. -/
theorem pullScript_follow (tail : Tail) (script : List Chunk) {blanks : Nat}
    (hb : blanks < patience) :
    Follow tail blanks (arrivalsOf blanks script) (pullScript tail script) := by
  fun_induction pullScript tail script with
  | case1 ht =>
    subst ht
    exact .ending rfl rfl
  | case2 message ht =>
    subst ht
    exact .fault rfl rfl
  | case3 rest ih =>
    rw [arrivalsOf]
    exact ih
  | case4 b bs rest =>
    refine .data ?_
    rw [arrivalsOf_data, ← List.append_assoc, ← List.map_append, List.take_append_drop, arrivalsOf,
      List.map_cons, List.cons_append]
  | case5 message rest => exact .fault rfl rfl
  | case6 rest ih =>
    rw [arrivalsOf, Nat.add_zero, Nat.div_eq_of_lt hb, Nat.mod_eq_of_lt hb]
    exact ih
  | case7 n rest =>
    refine .nothing ?_
    rw [afterBlanks]
    by_cases hfull : patience ≤ blanks + 1
    · -- the stall that this answer completes comes first
      have hsum : blanks + (n + 1) = 0 + n + patience := by omega
      rw [if_pos hfull, arrivalsOf, arrivalsOf, hsum, Nat.add_div_right _ (by decide),
        Nat.add_mod_right, List.replicate_succ, List.cons_append]
    · rw [if_neg hfull, arrivalsOf, arrivalsOf, show blanks + 1 + n = blanks + (n + 1) by omega]
  | case8 rest ih =>
    rw [arrivalsOf]
    exact ih
  | case9 n rest =>
    refine .ending ?_ ?_
    · rw [arrivalsOf, List.replicate_succ]
      rfl
    · rw [arrivalsOf, arrivalsOf_ending, List.replicate_succ]
      rfl

theorem pull_follow (f : Feed) {blanks : Nat} (hb : blanks < patience) :
    Follow f.tail blanks (arrivalsOf blanks f.script) (f.pull.1, f.pull.2.script) ∧
      f.pull.2.tail = f.tail :=
  ⟨pullScript_follow f.tail f.script hb, rfl⟩

end Feed

namespace Reader

/-- What a reader that goes on after ends and faults still hands out of its script. -/
def ahead (r : Reader) : List Arrival := r.buffer.map .byte ++ r.feed.arrivals

/-- What a call brings, and what it leaves: the first of the arrivals, or the tail when there are none
left. -/
structure Hands (arrivals : List Arrival) (tail : Tail) (result : Arrival × Reader) : Prop where
  arrival : result.1 = arrivals.headD tail.arrival
  ahead : result.2.ahead = arrivals.tail
  tail : result.2.feed.tail = tail

theorem refill_hands {attempts blanks : Nat} (h : attempts + blanks = patience) (feed : Feed)
    (pulls : Nat) :
    Hands (Feed.afterBlanks blanks feed.script) feed.tail (refill attempts feed pulls) := by
  induction attempts generalizing blanks feed pulls with
  | zero =>
    rw [Feed.afterBlanks, if_pos (by omega)]
    exact ⟨rfl, rfl, rfl⟩
  | succ attempts ih =>
    have hb : blanks < patience := by omega
    obtain ⟨hf, ht⟩ := feed.pull_follow hb
    rw [Feed.afterBlanks, if_neg (by omega), ← ht, refill]
    generalize Feed.arrivalsOf blanks feed.script = arrivals at hf ⊢
    rcases hp : feed.pull with ⟨delivery, feed'⟩
    rw [hp] at hf ht
    simp only at hf ht ⊢
    cases hf with
    | data heq =>
      subst heq
      exact ⟨rfl, rfl, rfl⟩
    | nothing heq =>
      subst heq
      exact ih (by omega) feed' _
    | ending hhead htail =>
      rw [← ht] at hhead
      exact ⟨hhead.symm, htail.symm, rfl⟩
    | fault hhead htail =>
      rw [← ht] at hhead
      exact ⟨hhead.symm, htail.symm, rfl⟩

/-- **A reader hands out** what its script comes to, one thing after the other. -/
theorem next_hands (r : Reader) : Hands r.ahead r.feed.tail r.next := by
  rcases r with ⟨_ | ⟨b, rest⟩, feed, pulls⟩
  · exact refill_hands (Nat.add_zero _) feed pulls
  · exact ⟨rfl, rfl, rfl⟩

end Reader

/-! ## Tokens -/

/-- What an arrival is to a cursor; nothing if it is a comment byte. -/
def Arrival.lexeme? : Arrival → Option Lexeme
  | byte b => (Command.ofByte? b).map .command
  | ending => some .ending
  | fault why => some (.fault why)

/-- What every token is after the script. -/
def Tail.lexeme : Tail → Lexeme
  | ending => .ending
  | fault message => .fault (.refused message)

theorem Tail.bytes_arrival (t : Tail) : t.arrival.bytes = [] := by
  cases t <;> rfl

theorem Tail.lexeme?_arrival (t : Tail) : t.arrival.lexeme? = some t.lexeme := by
  cases t <;> rfl

/-- The tokens that arrivals make behind the bytes `before`: each is at the last byte passed. -/
def transcript (before : Bytes) : List Arrival → List Token
  | [] => []
  | a :: rest =>
    (a.lexeme?.map (⟨·, .ofLast (before ++ a.bytes)⟩)).toList ++ transcript (before ++ a.bytes) rest

namespace Cursor

/-- The next `n` tokens. -/
def tokens : (n : Nat) → Cursor → List Token
  | 0, _ => []
  | n + 1, c => c.token.1 :: c.token.2.tokens n

/-- The cursor has passed the bytes `before`, and `ahead` is to come before the tail. -/
structure Passed (c : Cursor) (before : Bytes) (ahead : List Arrival) (tail : Tail) : Prop where
  ahead : c.reader.ahead = ahead
  tail : c.reader.feed.tail = tail
  position : c.position = .ofLast before
  fresh : c.fresh = (before.getLast? == some newline)

variable {c : Cursor} {before : Bytes} {ahead : List Arrival} {tail : Tail}

/-- A call brings the next arrival, and the position moves if that is a byte. -/
theorem Passed.next (h : c.Passed before ahead tail) :
    ∃ c', c.next = (ahead.headD tail.arrival, c') ∧
      c'.Passed (before ++ (ahead.headD tail.arrival).bytes) ahead.tail tail := by
  have hands := c.reader.next_hands
  rw [h.ahead, h.tail] at hands
  rcases hn : c.reader.next with ⟨arrival, reader⟩
  rw [hn] at hands
  obtain ⟨rfl, hahead, htail⟩ := hands
  cases ha : ahead.headD tail.arrival with
  | byte b =>
    have hpos : c.position.following c.fresh = .ofLast (before ++ [b]) := by
      rw [h.position, h.fresh, Position.following_ofLast, Position.ofLast_append_singleton]
    refine ⟨_, by rw [Cursor.next, hn, ha], hahead, htail, hpos, ?_⟩
    simp [Arrival.bytes]
  | ending | fault why =>
    rw [Arrival.bytes, List.append_nil]
    exact ⟨{ c with reader }, by rw [Cursor.next, hn, ha], hahead, htail, h.position, h.fresh⟩

/-- The token of the next arrival. -/
theorem token_of_lexeme {a : Arrival} {c' : Cursor} {l : Lexeme} (hn : c.next = (a, c'))
    (hl : a.lexeme? = some l) : c.token = (⟨l, c'.position⟩, c') := by
  cases a with
  | byte b =>
    obtain ⟨command, hb, rfl⟩ := Option.map_eq_some_iff.1 hl
    rw [token_of_byte hn, hb]
  | ending | fault why =>
    cases hl
    rw [token]
    split <;> simp_all

/-- A comment is passed over. -/
theorem token_of_comment {a : Arrival} {c' : Cursor} (hn : c.next = (a, c'))
    (hl : a.lexeme? = none) : c.token = c'.token := by
  cases a with
  | byte b => rw [token_of_byte hn, Option.map_eq_none_iff.1 hl]
  | ending | fault why => cases hl

theorem tokens_of_token_eq {c' : Cursor} (h : c.token = c'.token) (n : Nat) :
    c.tokens n = c'.tokens n := by
  cases n with
  | zero => rfl
  | succ n => rw [tokens, tokens, h]

/-- Behind its script a feed brings its tail again and again. -/
theorem Passed.tokens_tail (h : c.Passed before [] tail) (n : Nat) :
    c.tokens n = List.replicate n ⟨tail.lexeme, .ofLast before⟩ := by
  induction n generalizing c with
  | zero => rfl
  | succ n ih =>
    obtain ⟨c', hn, hc'⟩ := h.next
    rw [List.headD_nil, tail.bytes_arrival, List.append_nil] at hc'
    rw [List.headD_nil] at hn
    rw [tokens, token_of_lexeme hn tail.lexeme?_arrival, ih hc', hc'.position, List.replicate_succ]

/-- **A cursor finds** the tokens of what is ahead of it, and from then on the tail. -/
theorem Passed.tokens (h : c.Passed before ahead tail) (n : Nat) :
    c.tokens ((transcript before ahead).length + n) =
      transcript before ahead ++
        List.replicate n ⟨tail.lexeme, .ofLast (before ++ ahead.flatMap Arrival.bytes)⟩ := by
  induction ahead generalizing c before with
  | nil =>
    rw [transcript, List.length_nil, Nat.zero_add, List.flatMap_nil, List.append_nil]
    exact h.tokens_tail n
  | cons a rest ih =>
    obtain ⟨c', hn, hc'⟩ := h.next
    rw [List.headD_cons, List.tail_cons] at hc'
    rw [List.headD_cons] at hn
    have hi := ih hc'
    rw [transcript, List.flatMap_cons, ← List.append_assoc]
    cases hl : a.lexeme? with
    | none =>
      rw [tokens_of_token_eq (token_of_comment hn hl)]
      exact hi
    | some l =>
      rw [Option.map_some, Option.toList_some, List.singleton_append, List.length_cons,
        Nat.add_right_comm, Cursor.tokens, token_of_lexeme hn hl, hi, hc'.position]
      rfl

end Cursor

/-! ## Places -/

/-- The command of a token and its position; nothing if the token is an end or a fault. -/
def Token.command? : Token → Option (Command × Position)
  | ⟨.command c, p⟩ => some (c, p)
  | ⟨.ending, _⟩ | ⟨.fault _, _⟩ => none

/-- **The commands of a transcript** are those of the bytes, each at its place among all bytes. -/
theorem transcript_commands (before : Bytes) (arrivals : List Arrival) :
    (transcript before arrivals).filterMap Token.command? =
      (sitesFrom before.length (arrivals.flatMap Arrival.bytes)).map fun (c, k) =>
        (c, .ofOffset (before ++ arrivals.flatMap Arrival.bytes) k) := by
  induction arrivals generalizing before with
  | nil => rfl
  | cons a rest ih =>
    rw [transcript, List.filterMap_append, ih, List.flatMap_cons, ← List.append_assoc]
    cases a with
    | byte b =>
      have hplace : Position.ofLast (before ++ [b]) =
          .ofOffset (before ++ [b] ++ rest.flatMap Arrival.bytes) before.length := by
        rw [Position.ofLast_append_singleton, ← Position.ofOffset_take (before ++ [b] ++ _),
          List.append_assoc, List.take_left]
      rw [Arrival.bytes, Arrival.lexeme?, List.singleton_append, sitesFrom, List.length_append,
        List.length_singleton, hplace]
      cases Command.ofByte? b <;> rfl
    | ending | fault why => simp [Arrival.bytes, Arrival.lexeme?, Token.command?]

namespace Feed

/-- The bytes of the arrivals are all the data, however often it is interrupted. -/
theorem bytes_arrivalsOf (blanks : Nat) (script : List Chunk) :
    (arrivalsOf blanks script).flatMap Arrival.bytes = dataOf script := by
  have hbytes (bytes : Bytes) : (bytes.map Arrival.byte).flatMap Arrival.bytes = bytes := by
    simp [List.flatMap_map, Arrival.bytes]
  have hnone (n : Nat) {a : Arrival} (ha : a.bytes = []) :
      (List.replicate n a).flatMap Arrival.bytes = [] := by
    simp [List.flatMap_eq_nil_iff, ha]
  fun_induction arrivalsOf blanks script with
  | case1 => rfl
  | case2 blanks rest ih => rw [ih, dataOf, List.nil_append]
  | case3 _ b bs rest ih => rw [List.flatMap_append, hbytes, ih, dataOf]
  | case4 _ message rest ih => rw [List.flatMap_cons, ih, dataOf, Arrival.bytes, List.nil_append]
  | case5 blanks n rest ih => rw [List.flatMap_append, hnone _ rfl, ih, dataOf, List.nil_append]
  | case6 blanks rest ih => rw [ih, dataOf]
  | case7 _ n rest ih => rw [List.flatMap_append, hnone _ rfl, ih, dataOf, List.nil_append]

theorem bytes_arrivals (f : Feed) : f.arrivals.flatMap Arrival.bytes = f.data :=
  bytes_arrivalsOf 0 f.script

end Feed

/-- **The tokens of a whole feed**: those of its arrivals, and then its tail for ever. Their commands
are exactly those of all its data, each at its place in the data; and a fault is reported as such,
with its cause. -/
theorem Cursor.tokens_ofFeed (f : Feed) :
    (∀ n, (ofFeed f).tokens ((transcript [] f.arrivals).length + n) =
      transcript [] f.arrivals ++ List.replicate n ⟨f.tail.lexeme, .ofLast f.data⟩) ∧
    (transcript [] f.arrivals).filterMap Token.command? =
      (sites f.data).map (fun (c, k) => (c, .ofOffset f.data k)) ∧
    ∀ why, (Lexeme.fault why).name = utf8 "NONE" ∧ why.whileReadingSource =
      .reportOf ⟨.source, utf8 "E1002", utf8 "could not read source", {}⟩ why.toFailure := by
  have hstart : (ofFeed f).Passed [] f.arrivals f.tail := ⟨rfl, rfl, rfl, rfl⟩
  refine ⟨?_, ?_, ?_⟩
  · intro n
    rw [hstart.tokens n, List.nil_append, f.bytes_arrivals]
  · rw [transcript_commands, List.nil_append, f.bytes_arrivals]
    rfl
  · intro why
    exact ⟨rfl, rfl⟩

end Tapelang
