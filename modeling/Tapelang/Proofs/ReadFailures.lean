import Tapelang.Proofs.BracketMatching

/-!
# Texts that cannot be read to their end

What a feed delivers before its first end or fault (`Feed.lead`) is all that its compilation depends
on. Without a fault it is compiled like a text in memory (`compileFeed_of_end`). With one, the first
`]` without its `[` is still found, because it stands before the fault; nothing else is, because
everything else is only known at the end of a text (`compileFeed_of_fault`).
-/

namespace Tapelang

/-- A fault behind a text takes the place of whatever the end of the text would have brought. -/
theorem Compiler.assembleSites_fault (filename text : Bytes) (why : ReadFault) (a : Assembly)
    (list : List (Command × Nat)) :
    (assembleSites filename text (some why) a list).2 =
      match (assembleSites filename text none a list).2 with
      | .error (.unopened place) => .error (.unopened place)
      | _ => .error (.unreadable why) := by
  induction list generalizing a with
  | nil =>
    simp only [assembleSites, endAssembly]
    cases a.outermost? <;> rfl
  | cons site rest ih =>
    obtain ⟨command, k⟩ := site
    simp only [assembleSites]
    by_cases hr : a.rejects command = true
    · rw [if_pos hr, if_pos hr]
    · rw [if_neg hr, if_neg hr]
      exact ih _

theorem compileFeed_of_end (naming : Naming) {feed : Feed} (h : feed.lead.fault = none) :
    compileFeed naming feed = compileBytes naming feed.lead.bytes := by
  rw [compileFeed_eq, compileBytes_eq, h]

theorem compileFeed_of_fault (naming : Naming) {feed : Feed} {why : ReadFault}
    (h : feed.lead.fault = some why) :
    compileFeed naming feed =
      match compileBytes naming feed.lead.bytes with
      | .error (.unopened place) => .error (.unopened place)
      | _ => .error (.unreadable why) := by
  have hfault := Compiler.assembleSites_fault naming.filename feed.lead.bytes why {}
    (sites feed.lead.bytes)
  rw [compileFeed_eq, compileBytes_eq, h]
  generalize Compiler.assembleSites naming.filename feed.lead.bytes (some why) {}
    (sites feed.lead.bytes) = faulty at hfault
  generalize Compiler.assembleSites naming.filename feed.lead.bytes none {}
    (sites feed.lead.bytes) = whole at hfault
  obtain ⟨a, r⟩ := whole
  obtain ⟨a', r'⟩ := faulty
  simp only at hfault
  subst hfault
  rcases r with (_ | _ | _ | _) | _ <;> rfl

/-- **Compiling what a feed delivers** depends only on its lead, and a fault never hides an error that
was found before it: a `]` without its `[` is reported where it stands; otherwise a fault is reported
with its cause, even if a `[` has no `]`; otherwise the lead is compiled like a text in memory. -/
theorem compileFeed_lead (naming : Naming) (feed : Feed) :
    ((∃ k ≤ feed.lead.bytes.length, depthAt feed.lead.bytes k < 0) →
      ∃ k e, IsFirstUnopened feed.lead.bytes k ∧
        feed.lead.bytes[k]? = some Command.loopClose.toByte ∧ compileFeed naming feed = .error e ∧
        e.toFailure = .report ⟨.brackets, utf8 "E2002", utf8 "no matching '['",
          (Position.ofOffset feed.lead.bytes k).inFile naming.filename⟩) ∧
    ((∀ k ≤ feed.lead.bytes.length, 0 ≤ depthAt feed.lead.bytes k) →
      (∀ why, feed.lead.fault = some why → ∃ e, compileFeed naming feed = .error e ∧
        e.toFailure = .reportOf ⟨.source, utf8 "E1002", utf8 "could not read source", {}⟩
          why.toFailure) ∧
      (feed.lead.fault = none →
        compileFeed naming feed = compileBytes naming feed.lead.bytes)) ∧
    ∀ other : Feed, other.lead = feed.lead →
      compileFeed naming other = compileFeed naming feed := by
  refine ⟨?_, ?_, ?_⟩
  · rintro ⟨j, hj, hneg⟩
    rcases compileBytes_outcome naming feed.lead.bytes with
      ⟨code, -, hb⟩ | ⟨k, hc, hk⟩ | ⟨k, -, hpos, -⟩
    · have := hb.1 j hj
      omega
    · refine ⟨k, .unopened ((Position.ofOffset feed.lead.bytes k).inFile naming.filename), hk,
        hk.byte, ?_, rfl⟩
      cases hf : feed.lead.fault with
      | none => rw [compileFeed_of_end naming hf, hc]
      | some why => rw [compileFeed_of_fault naming hf, hc]
    · have := hpos j hj
      omega
  · intro hpos
    refine ⟨?_, compileFeed_of_end naming⟩
    intro why hf
    refine ⟨.unreadable why, ?_, rfl⟩
    rw [compileFeed_of_fault naming hf]
    rcases compileBytes_outcome naming feed.lead.bytes with
      ⟨code, hc, -⟩ | ⟨k, -, hk⟩ | ⟨k, hc, -⟩
    · rw [hc]
    · obtain ⟨j, hj, hneg⟩ := hk.depth_neg
      have := hpos j hj
      omega
    · rw [hc]
  · intro other hlead
    rw [compileFeed_eq, compileFeed_eq, hlead]

end Tapelang
