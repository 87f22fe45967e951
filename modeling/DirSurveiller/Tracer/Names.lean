/-
  DirSurveiller.Tracer.Names — which names the script gives back.

  The script takes the name of a file out of the last word of its line, and the name and the pid of
  the task apart at a dash.  Task names may have dashes and numbers in them, and file names may have
  blanks and quotes.

    * `filenameOf_iff`    — a file name is given back iff it has neither a blank nor a quote in it,
    * `pidOf_task`        — the pid always is,
    * `commOf_iff`        — the task name is iff it has no dash with a number behind it, apart from
                            copies of the pid at its end,
    * `open_reported_iff` — when the record of an `open` says what the task did.
-/
import DirSurveiller.Tracer.Streams

namespace DirSurveiller

open CMachine Awk Fields History

/-! ## §1. File names. -/

section File

variable {line head name : Bytes}

/-- The last field is what follows the last blank. -/
theorem lastField_word {w : Bytes} {b : UInt8} (hb : isBlank b = true) (hne : w ≠ [])
    (hw : ∀ b ∈ w, isBlank b = false) : lastField (head ++ b :: w) = w := by
  unfold lastField
  rw [fields_append_blank hb, fields_word hne hw, List.getLast?_append, List.getLast?_singleton]
  rfl

/-- A text with a byte of a kind: what follows the last one. -/
theorem exists_last {p : UInt8 → Bool} : ∀ {s : Bytes}, (∃ b ∈ s, p b = true) →
    ∃ l b r, s = l ++ b :: r ∧ p b = true ∧ ∀ c ∈ r, p c = false := by
  intro s
  induction s using List.reverseRecOn with
  | nil =>
      rintro ⟨b, hb, -⟩
      cases hb
  | append_singleton s c ih =>
      rintro ⟨b, hb, hp⟩
      cases hc : p c with
      | true => exact ⟨s, c, [], rfl, hc, fun x hx => by cases hx⟩
      | false =>
          rcases List.mem_append.mp hb with hb | hb
          · obtain ⟨l, d, r, rfl, hd, hr⟩ := ih ⟨b, hb, hp⟩
            refine ⟨l, d, r ++ [c], by simp, hd, fun x hx => ?_⟩
            rcases List.mem_append.mp hx with hx | hx
            · exact hr x hx
            · rw [List.mem_singleton.mp hx]
              exact hc
          · rw [List.mem_singleton.mp hb, hc] at hp
            cases hp

/-- Behind the last mark. -/
theorem throughMark_sub {m : UInt8} {l r : Bytes} (hr : m ∉ r) :
    (throughPattern [m]).sub [] (l ++ m :: r) = r :=
  sub_through (t := [m]) (fun _ => rfl) (List.cons_ne_nil m []) fun h => hr (h.subset List.mem_cons_self)

/-- **A file name is given back** exactly if it has neither a blank nor a quote in it. -/
theorem filenameOf_iff (hline : line = head ++ ascii " arg1=\"" ++ name ++ ascii "\"") :
    filenameOf line = name ↔ (∀ b ∈ name, isBlank b = false) ∧ (34 : UInt8) ∉ name := by
  have hquote : isBlank 34 = false := by decide
  -- what is left of the last word without its quote
  have hword : ∀ w : Bytes, (∀ b ∈ w, isBlank b = false) → ∀ front b, isBlank b = true →
      line = front ++ b :: (w ++ [34]) →
      filenameOf line = (throughPattern (ascii "\"")).sub [] w := by
    intro w hw front b hb hsplit
    unfold filenameOf
    rw [hsplit, lastField_word hb (by simp) fun c hc => by
      rcases List.mem_append.mp hc with hc | hc
      · exact hw c hc
      · rw [List.mem_singleton.mp hc]
        exact hquote]
    rw [show endQuote.sub [] (w ++ [34]) = w ++ [] from sub_end, List.append_nil]
  by_cases hblank : ∃ b ∈ name, isBlank b = true
  · -- the last word begins within the name
    obtain ⟨l, b, r, rfl, hb, hr⟩ := exists_last hblank
    have hfile := hword r hr (head ++ ascii " arg1=\"" ++ l) b hb (by
      rw [hline]
      simp only [List.append_assoc, List.cons_append]
      rfl)
    constructor
    · intro heq
      have hlen : ((throughPattern (ascii "\"")).sub [] r).length ≤ [].length + r.length := length_sub_le
      rw [← hfile, heq, List.length_append, List.length_cons, List.length_nil] at hlen
      omega
    · rintro ⟨hfree, -⟩
      rw [hfree b (by simp)] at hb
      cases hb
  · have hfree : ∀ b ∈ name, isBlank b = false := fun b hb =>
      Bool.eq_false_of_not_eq_true fun h => hblank ⟨b, hb, h⟩
    have hfile := hword (ascii "arg1=\"" ++ name) (fun b hb => by
        rcases List.mem_append.mp hb with hb | hb
        · exact (by decide +kernel : ∀ b ∈ ascii "arg1=\"", isBlank b = false) b hb
        · exact hfree b hb) head 32 (by decide) (by
      rw [hline]
      simp only [List.append_assoc]
      rfl)
    rw [hfile]
    by_cases hmem : ∃ b ∈ name, (b == 34) = true
    · -- behind the last quote of the name
      obtain ⟨l, b, r, rfl, hb, hr⟩ := exists_last hmem
      obtain rfl : b = 34 := by simpa using hb
      have hr' : (34 : UInt8) ∉ r := fun h => by simpa using hr 34 h
      constructor
      · intro heq
        have hsub := throughMark_sub (l := ascii "arg1=\"" ++ l) hr'
        rw [List.append_assoc] at hsub
        have heq' : r = l ++ 34 :: r := hsub.symm.trans heq
        have hlen := congrArg List.length heq'
        rw [List.length_append, List.length_cons] at hlen
        omega
      · rintro ⟨-, hnot⟩
        exact absurd (by simp) hnot
    · have hnot : (34 : UInt8) ∉ name := fun h => hmem ⟨34, h, by decide⟩
      exact ⟨fun _ => ⟨hfree, hnot⟩, fun _ => throughMark_sub (l := ascii "arg1=") hnot⟩

end File

/-! ## §2. Tasks. -/

section Task

variable {line comm pid p d q : Bytes}

/-- No dash has a digit behind it. -/
def NoDashNumber (s : Bytes) : Prop := ∀ l b r, s = l ++ 45 :: b :: r → isDigit b = false

/-- The text does not begin with a digit. -/
def NoDigitFirst (s : Bytes) : Prop := ∀ b r, s = b :: r → isDigit b = false

theorem NoDashNumber.cons {a : UInt8} {s : Bytes} (h : NoDashNumber s) (ha : a = 45 → NoDigitFirst s) :
    NoDashNumber (a :: s) := by
  intro l b r hsplit
  cases l with
  | nil =>
      obtain ⟨ha', hs⟩ := List.cons.inj hsplit
      exact ha ha' b r hs
  | cons c l => exact h l b r (List.cons.inj hsplit).2

theorem NoDashNumber.tail {a : UInt8} {s : Bytes} (h : NoDashNumber (a :: s)) : NoDashNumber s := by
  intro l b r hsplit
  exact h (a :: l) b r (by rw [hsplit]; rfl)

theorem noDigitFirst_dash {s : Bytes} : NoDigitFirst (45 :: s) := by
  intro b r h
  obtain ⟨rfl, -⟩ := List.cons.inj h
  decide

/-- A text has no number behind a dash, or a first one. -/
theorem dashNumber_cases (s : Bytes) : NoDashNumber s ∨ ∃ p d q, s = p ++ 45 :: (d ++ q)
    ∧ NoDashNumber p ∧ d ≠ [] ∧ (∀ b ∈ d, isDigit b = true) ∧ NoDigitFirst q := by
  induction s with
  | nil => exact .inl fun l b r h => by simp at h
  | cons a s ih =>
      by_cases hhere : a = 45 ∧ ¬ NoDigitFirst s
      · obtain ⟨rfl, hs⟩ := hhere
        simp only [NoDigitFirst, not_forall] at hs
        obtain ⟨b, r, rfl, hb⟩ := hs
        refine .inr ⟨[], (b :: r).takeWhile isDigit, (b :: r).dropWhile isDigit,
          by rw [List.takeWhile_append_dropWhile]; rfl, fun l c r h => by simp at h, ?_, ?_, ?_⟩
        · rw [List.takeWhile_cons_of_pos (by simpa using hb)]
          exact List.cons_ne_nil _ _
        · exact fun c hc => List.mem_takeWhile_imp hc
        · intro c r' hc
          have hhead := List.head?_dropWhile_not isDigit (b :: r)
          rw [hc] at hhead
          simpa using hhead
      · have ha : a = 45 → NoDigitFirst s := fun ha => by_contra fun hs => hhere ⟨ha, hs⟩
        rcases ih with hs | ⟨p, d, q, rfl, hp, hd, hdigits, hq⟩
        · exact .inl (hs.cons ha)
        · refine .inr ⟨a :: p, d, q, rfl, hp.cons fun h45 => ?_, hd, hdigits, hq⟩
          intro b r hbr
          exact ha h45 b (r ++ 45 :: (d ++ q)) (by rw [hbr]; rfl)

/-- The first dash with a number behind it is taken out, and the number. -/
theorem dashNumber_sub (hp : NoDashNumber p) (hd : d ≠ []) (hdigits : ∀ b ∈ d, isDigit b = true)
    (hq : NoDigitFirst q) : dashNumber.sub [] (p ++ 45 :: (d ++ q)) = p ++ q := by
  -- a match begins with a dash and a digit
  have hnone : ∀ r : Bytes, (∀ b r', r = 45 :: b :: r' → isDigit b = false) →
      longest dashNumber.atEnd dashNumber.items r = none := by
    intro r hr
    cases r with
    | nil => rfl
    | cons a r =>
        by_cases ha : a = 45
        · subst ha
          show longest false (literal [45] ++ _) ([45] ++ r) = none
          rw [longest_literal]
          cases r with
          | nil => rfl
          | cons b r => rw [longest, if_neg (by rw [hr b r rfl]; exact Bool.false_ne_true)]; rfl
        · refine longest_literal_none ?_
          rintro ⟨r', h⟩
          exact ha (List.cons.inj h).1.symm
  have hfound : Found dashNumber (p ++ 45 :: (d ++ q)) p (45 :: d) q := by
    refine ⟨rfl, ?_, fun l a r hsplit => hnone _ fun b r' hbr => ?_⟩
    · cases d with
      | nil => exact absurd rfl hd
      | cons b d =>
          obtain ⟨hb, hd⟩ := List.forall_mem_cons.mp hdigits
          show longest false (literal [45] ++ _) ([45] ++ (b :: (d ++ q))) = _
          rw [longest_literal, longest, if_pos hb]
          rw [longest_run_last hd hq]
          rfl
    · -- behind a dash of `p` there is no digit, nor is the dash that follows `p` one
      obtain ⟨rfl, hr⟩ := List.cons.inj hbr
      cases r with
      | nil =>
          obtain ⟨rfl, -⟩ := List.cons.inj hr
          decide
      | cons c r =>
          obtain ⟨rfl, -⟩ := List.cons.inj hr
          exact hp l c r hsplit
  rw [sub_of_found hfound, List.append_nil]

/-- The task of a line: its name, a dash and its pid. -/
structure IsTask (line comm pid : Bytes) : Prop where
  task : field 1 line = comm ++ 45 :: pid
  digits : ∀ b ∈ pid, isDigit b = true
  nonempty : pid ≠ []

/-- **The pid is given back.** -/
theorem pidOf_task (h : IsTask line comm pid) : pidOf line = pid := by
  unfold pidOf
  rw [h.task]
  exact throughMark_sub fun hm => absurd (h.digits 45 hm) (by decide)

/-- Taking the first number out of a task gives its name back only if it is the pid, again and again. -/
theorem repeated_pid (hd : ∀ b ∈ d, isDigit b = true) : ∀ {q : Bytes},
    q ++ 45 :: pid = 45 :: (d ++ q) →
    d = pid ∧ ∃ k, q = (List.replicate k (45 :: pid)).flatten := by
  intro q
  induction hn : q.length using Nat.strong_induction_on generalizing q with
  | _ n ih =>
      subst hn
      intro heq
      have hlen : pid.length = d.length := by
        have := congrArg List.length heq
        simp only [List.length_append, List.length_cons] at this
        omega
      cases q with
      | nil => exact ⟨by simpa using (List.cons.inj heq).2.symm, 0, rfl⟩
      | cons a q =>
          obtain ⟨rfl, hrest⟩ := List.cons.inj heq
          rcases List.append_eq_append_iff.mp hrest with ⟨c, hc, hr⟩ | ⟨c, hc, hr⟩
          · -- the dash behind `q` would lie within the number
            cases c with
            | nil =>
                rw [List.nil_append] at hr
                rw [List.append_nil] at hc
                obtain ⟨-, rfl⟩ := List.cons.inj hr
                exact ⟨hc, 1, by simp⟩
            | cons x c =>
                obtain ⟨rfl, -⟩ := List.cons.inj hr
                exact absurd (hd 45 (by rw [hc]; simp)) (by decide)
          · -- one copy of the number less
            have hshorter : c.length < (45 :: q).length := by
              rw [hc, List.length_cons, List.length_append]
              omega
            obtain ⟨hpid, k, hk⟩ := ih c.length hshorter rfl (by rw [← hr, hc])
            refine ⟨hpid, k + 1, ?_⟩
            rw [List.replicate_succ, List.flatten_cons, ← hk, hc, hpid]
            rfl

/-- **The name of a task is given back** exactly if nothing in it is a dash with a number behind it, up
to copies of the pid at its end. -/
theorem commOf_iff (h : IsTask line comm pid) : commOf line = comm
    ↔ ∃ p k, comm = p ++ (List.replicate k (45 :: pid)).flatten ∧ NoDashNumber p := by
  unfold commOf
  rw [h.task]
  constructor
  · intro heq
    rcases dashNumber_cases comm with hno | ⟨p, d, q, rfl, hp, hd, hdigits, hq⟩
    · exact ⟨comm, 0, (List.append_nil comm).symm, hno⟩
    · have hq' : NoDigitFirst (q ++ 45 :: pid) := by
        cases q with
        | nil => exact noDigitFirst_dash
        | cons b q =>
            intro c r hcr
            obtain ⟨rfl, -⟩ := List.cons.inj hcr
            exact hq b q rfl
      rw [List.append_assoc, List.cons_append, List.append_assoc,
        dashNumber_sub hp hd hdigits hq'] at heq
      obtain ⟨rfl, k, hk⟩ := repeated_pid hdigits (List.append_cancel_left heq)
      refine ⟨p, k + 1, ?_, hp⟩
      rw [List.replicate_succ, List.flatten_cons, ← hk]
      rfl
  · rintro ⟨p, k, hcomm, hp⟩
    -- behind the first copy of the pid stand the others
    have htask : comm ++ 45 :: pid = p ++ 45 :: (pid ++ (List.replicate k (45 :: pid)).flatten) := by
      have hcopies : (List.replicate k (45 :: pid)).flatten ++ (45 :: pid)
          = (45 :: pid) ++ (List.replicate k (45 :: pid)).flatten := by
        rw [← List.flatten_concat, ← List.replicate_succ', List.replicate_succ, List.flatten_cons]
      rw [hcomm, List.append_assoc, hcopies]
      rfl
    have hnext : NoDigitFirst (List.replicate k (45 :: pid)).flatten := by
      cases k with
      | zero => exact fun b r h => by cases h
      | succ k =>
          rw [List.replicate_succ, List.flatten_cons]
          exact noDigitFirst_dash
    rw [htask, dashNumber_sub hp h.nonempty h.digits hnext, hcomm]

end Task

/-! ## §3. The record of an `open`. -/

section Opened

variable {o : Nat} {kname comm pid name head named opened : Bytes} {pre mid : List Bytes}

theorem IsTask.entry {line : Bytes} (h : IsTask line comm pid) : isEntry line = true := by
  unfold isEntry
  rw [h.task, bne_iff_ne]
  intro heq
  have hmem : (45 : UInt8) ∈ ascii "#" := heq ▸ by simp
  exact absurd hmem (by decide)

/-- The line on which the kernel takes a file name over from the task. -/
structure NameLine (o : Nat) (line head comm pid name : Bytes) : Prop where
  task : IsTask line comm pid
  text : line = head ++ ascii " arg1=\"" ++ name ++ ascii "\""
  probe : (textPattern (ascii "do_sys_open")).occurs (field (5 + o) line) = true
  other : field (4 + o) line ≠ ascii "sys_open"

/-- The line on which the task returns from `open`. -/
structure OpenLine (o : Nat) (line comm pid : Bytes) : Prop where
  task : IsTask line comm pid
  call : field (4 + o) line = ascii "sys_open"
  other : (textPattern (ascii "do_sys_open")).occurs (field (5 + o) line) = false

/-- The rule of `sys_open` is the only one that prints on the standard output. -/
theorem step_out {s : Script} {line : Bytes} (h : OpenLine o line comm pid) : (s.step o kname line).out
    = s.out ++ printf [timeOf o line, commOf line, pid, rvalOf line, s.lastfile pid] := by
  have hfork : ∀ x : Script, (x.schedProcessFork o line).out = x.out := by
    intro x
    unfold Script.schedProcessFork
    split <;> rfl
  have hopen : ((s.doSysOpen o line).sysOpen o line).out
      = s.out ++ printf [timeOf o line, commOf line, pid, rvalOf line, s.lastfile pid] := by
    unfold Script.doSysOpen Script.sysOpen
    rw [if_pos h.call, if_neg (by rw [h.other]; exact Bool.false_ne_true), pidOf_task h.task]
  unfold Script.step
  rw [if_pos h.task.entry]
  dsimp only
  split
  · split
    · rw [hfork, hopen]
    · show Script.out (Script.schedProcessFork o line _) = _
      rw [hfork, hopen]
  · show Script.out (Script.schedProcessFork o line _) = _
    rw [hfork, hopen]

theorem eventsOf_named (h : NameLine o named head comm pid name) : ∃ rest,
    eventsOf o kname named = .named pid (filenameOf named) :: rest ∧
      ∀ x ∈ rest, fileEvent pid x = none := by
  unfold eventsOf
  rw [h.task.entry, h.probe, pidOf_task h.task, Bool.and_self,
    if_pos rfl, if_neg (by simpa using h.other)]
  refine ⟨_, rfl, fun x hx => ?_⟩
  rcases List.mem_append.mp hx with hx | hx
  · rw [List.mem_singleton.mp (List.mem_ite_nil_right.mp hx).2]
    rfl
  · rw [List.mem_singleton.mp hx, lastEventOf]
    split <;> rfl

/-- Until the task opens it, the name is at hand. -/
theorem fileAt_named (h : NameLine o named head comm pid name)
    (hmid : ∀ e ∈ traceEvents o kname mid, fileEvent pid e = none) :
    fileAt (traceEvents o kname (pre ++ named :: mid)) pid = filenameOf named := by
  obtain ⟨rest, hevents, hrest⟩ : ∃ rest, eventsOf o kname named
      = .named pid (filenameOf named) :: rest ∧ ∀ x ∈ rest, fileEvent pid x = none :=
    eventsOf_named h
  have hlast : lastSome (fileEvent pid) (traceEvents o kname (pre ++ named :: mid))
      = some (filenameOf named) := by
    refine lastSome_eq_some.mpr ⟨traceEvents o kname pre, .named pid (filenameOf named),
      rest ++ traceEvents o kname mid, ?_, if_pos rfl, fun x hx => ?_⟩
    · unfold traceEvents
      rw [List.flatMap_append, List.flatMap_cons, hevents]
      rfl
    · exact (List.mem_append.mp hx).elim (hrest x) (hmid x)
  unfold fileAt
  rw [hlast]
  rfl

/-- The name of a task has no tab. -/
theorem IsTask.tab {line : Bytes} (h : IsTask line comm pid) : TAB ∉ comm := by
  intro hm
  have hmem : TAB ∈ field 1 line := by
    rw [h.task]
    exact List.mem_append_left _ hm
  exact absurd ((field_piece 1 line).mem TAB hmem).2 (by decide)

/-- Two lines that differ in the second and the last column differ. -/
theorem printf_inj {time comm' rval name' : Bytes} (hc : TAB ∉ comm) (hc' : TAB ∉ comm') :
    printf [time, comm, pid, rval, name] = printf [time, comm', pid, rval, name']
      ↔ comm = comm' ∧ name = name' := by
  have hline : ∀ c n : Bytes, printf [time, c, pid, rval, n]
      = (time ++ [TAB]) ++ (c ++ TAB :: ((pid ++ [TAB] ++ (rval ++ [TAB])) ++ (n ++ [NEWLINE]))) := by
    intro c n
    unfold printf encode
    simp only [List.intercalate_cons_cons, List.intercalate_singleton, List.append_assoc,
      List.cons_append, List.nil_append]
  constructor
  · intro heq
    rw [hline, hline] at heq
    obtain ⟨hcomm, hrest⟩ := first_mark (List.append_cancel_left heq) hc hc'
    exact ⟨hcomm, List.append_cancel_right (List.append_cancel_left hrest)⟩
  · rintro ⟨rfl, rfl⟩
    rfl

/-- **When the record of an `open` says what the task did.**  The task hands a name over and, with no
other `open` of its own in between, returns from `open`: the script prints one record, and it is the
one with the names of the task and of the file exactly if neither is of the kind that is cut. -/
theorem open_reported_iff (kname : Bytes) (pre : List Bytes) {mid : List Bytes}
    (hnamed : NameLine o named head comm pid name) (hopened : OpenLine o opened comm pid)
    (hmid : ∀ e ∈ traceEvents o kname mid, fileEvent pid e = none) :
    (∃ comm' name', (Script.run o kname (pre ++ named :: mid ++ [opened])).out
        = (Script.run o kname (pre ++ named :: mid)).out
          ++ printf [timeOf o opened, comm', pid, rvalOf opened, name'])
      ∧ ((Script.run o kname (pre ++ named :: mid ++ [opened])).out
          = (Script.run o kname (pre ++ named :: mid)).out
            ++ printf [timeOf o opened, comm, pid, rvalOf opened, name]
        ↔ (∃ p k, comm = p ++ (List.replicate k (45 :: pid)).flatten ∧ NoDashNumber p)
          ∧ (∀ b ∈ name, isBlank b = false) ∧ (34 : UInt8) ∉ name) := by
  have hout : (Script.run o kname (pre ++ named :: mid ++ [opened])).out
      = (Script.run o kname (pre ++ named :: mid)).out
        ++ printf [timeOf o opened, commOf opened, pid, rvalOf opened, filenameOf named] := by
    have hrecalls := recalls_run (traceEvents o kname (pre ++ named :: mid))
    rw [← run_events] at hrecalls
    rw [Script.run, List.foldl_append]
    show (Script.step o kname (Script.run o kname (pre ++ named :: mid)) opened).out = _
    rw [step_out hopened, hrecalls.lastfile, fileAt_named hnamed hmid]
  have hcut : TAB ∉ commOf opened := fun hm =>
    absurd ((commOf_piece opened).mem TAB hm).2 (by decide)
  refine ⟨⟨_, _, hout⟩, ?_⟩
  rw [hout, List.append_cancel_left_eq, printf_inj hcut hopened.task.tab, commOf_iff hopened.task,
    filenameOf_iff hnamed.text]

/-- A file with a blank in its name is not reported under this name. -/
theorem open_reported_sample :
    (Script.run 0 (ascii "kx") [ascii "sh-7 0 1.0: p: (do_sys_open) arg1=\"my file\"",
        ascii "sh-7 0 1.1: sys_open -> 0x3"]).out
      ≠ (Script.run 0 (ascii "kx") [ascii "sh-7 0 1.0: p: (do_sys_open) arg1=\"my file\""]).out
        ++ printf [ascii "1.1", ascii "sh", ascii "7", ascii "0x3", ascii "my file"] := by
  have hnamed : NameLine 0 (ascii "sh-7 0 1.0: p: (do_sys_open) arg1=\"my file\"")
      (ascii "sh-7 0 1.0: p: (do_sys_open)") (ascii "sh") (ascii "7") (ascii "my file") :=
    ⟨⟨by decide +kernel, by decide +kernel, by decide +kernel⟩,
     by decide +kernel, by decide +kernel, by decide +kernel⟩
  have hopened : OpenLine 0 (ascii "sh-7 0 1.1: sys_open -> 0x3") (ascii "sh") (ascii "7") :=
    ⟨⟨by decide +kernel, by decide +kernel, by decide +kernel⟩,
     by decide +kernel, by decide +kernel⟩
  have htime : timeOf 0 (ascii "sh-7 0 1.1: sys_open -> 0x3") = ascii "1.1" := by decide +kernel
  have hrval : rvalOf (ascii "sh-7 0 1.1: sys_open -> 0x3") = ascii "0x3" := by decide +kernel
  obtain ⟨-, hiff⟩ := open_reported_iff (ascii "kx") [] hnamed hopened
    (fun e (he : e ∈ traceEvents 0 (ascii "kx") []) => by cases he)
  rw [htime, hrval] at hiff
  exact fun heq => absurd (hiff.mp heq).2.1 (by decide)

end Opened

end DirSurveiller
