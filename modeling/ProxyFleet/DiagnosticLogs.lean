import ProxyFleet.BoundedLogs
import ProxyFleet.Evidence
import ProxyFleet.LossyUtf8
import ProxyFleet.ProbeStages
import ProxyFleet.ShareUrlParser

/-!
# Diagnostics that stay small

In a storm of retries the scheduler logs one failure of a node and a class in half a minute. The
output of an Xray process is drained while it runs, but only the end of each pipe is kept, for
the report of a failed start. Neither grows, and neither loses what it is there to show.
-/
namespace ProxyFleet

open BoundedLogs ObservedRuns TextLines

section RetryLogs

/-- `RETRY_LOG_SAMPLE_WINDOW`; an `Instant` is a number of nanoseconds. -/
def retryLogSampleWindow : ℕ := 30 * 1000000000

/-- The samples in memory, each with its key and when it was seen. -/
abbrev RetryLogSamples := List ((String × String) × ℕ)

/-- `HashMap::insert`. -/
def RetryLogSamples.insert (samples : RetryLogSamples) (key : String × String) (now : ℕ) :
    RetryLogSamples :=
  (key, now) :: samples.filter fun sample => decide (sample.1 ≠ key)

def shouldEmitFailureLog (samples : RetryLogSamples) (proxyId failureClass : String) (now : ℕ) :
    RetryLogSamples × Bool :=
  let samples : RetryLogSamples :=
    samples.filter fun sample => decide (now - sample.2 < retryLogSampleWindow)
  let key := (proxyId, failureClass)
  match samples.lookup key with
  | some seen =>
    if now - seen < retryLogSampleWindow then (samples, false) else (samples.insert key now, true)
  | none => (samples.insert key now, true)

/-- A stage of a probe that failed, and the clock of the scheduler when it is logged. -/
structure ProbeFailure where
  proxyId : String
  failureClass : FailureClass
  now : ℕ

def ProbeFailure.line (failure : ProbeFailure) : (String × String) × ℕ :=
  ((failure.proxyId, failure.failureClass.asStr), failure.now)

/-- The warning that the scheduler writes, or does not. -/
def logFailure (log : SampledLog (String × String)) (failure : ProbeFailure) :
    SampledLog (String × String) :=
  let (samples, emits) := shouldEmitFailureLog log.samples failure.proxyId
    failure.failureClass.asStr failure.now
  { samples := samples, passed := if emits then failure.line :: log.passed else log.passed }

theorem insert_absent {samples : RetryLogSamples} {key : String × String} {now : ℕ}
    (h : key ∉ samples.map Prod.fst) : samples.insert key now = (key, now) :: samples := by
  rw [RetryLogSamples.insert, List.filter_eq_self.mpr]
  intro sample hsample
  rw [decide_eq_true_eq]
  rintro rfl
  exact h (List.mem_map_of_mem hsample)

theorem logFailure_eq (log : SampledLog (String × String)) (failure : ProbeFailure) :
    logFailure log failure = sample retryLogSampleWindow log failure.line := by
  have hunfold : recent retryLogSampleWindow log.samples failure.line.2 =
      log.samples.filter fun sample => decide (failure.now - sample.2 < retryLogSampleWindow) := rfl
  simp only [logFailure, shouldEmitFailureLog, sample, ← hunfold]
  have hkey : failure.line.1 = (failure.proxyId, failure.failureClass.asStr) := rfl
  rw [← hkey]
  cases hseen : (recent retryLogSampleWindow log.samples failure.line.2).lookup failure.line.1 with
  | none =>
    have habsent : failure.line.1 ∉
        (recent retryLogSampleWindow log.samples failure.line.2).map Prod.fst := by
      intro hmem
      obtain ⟨seen, hrecent, hsame⟩ := List.mem_map.mp hmem
      have hother := List.lookup_eq_none_iff.mp hseen seen hrecent
      simp [hsame] at hother
    rw [if_neg habsent, insert_absent habsent]
    rfl
  | some seen =>
    obtain ⟨before, after, hsplit, -⟩ := List.lookup_eq_some_iff.mp hseen
    have hmem : (failure.line.1, seen) ∈
        recent retryLogSampleWindow log.samples failure.line.2 := by
      rw [hsplit]
      simp
    have hin : failure.now - seen < retryLogSampleWindow :=
      of_decide_eq_true (List.mem_filter.mp hmem).2
    rw [if_pos (List.mem_map_of_mem hmem)]
    simp only [if_pos hin]
    rfl

theorem run_logFailure (log : SampledLog (String × String)) (failures : List ProbeFailure) :
    run logFailure log failures =
      run (sample retryLogSampleWindow) log (failures.map ProbeFailure.line) := by
  rw [run, run, List.foldl_map]
  congr 1
  funext log failure
  exact logFailure_eq log failure

/-- Every failure has a line of its node and class from the last half minute. Unless the clock
runs backwards, the lines are those of a limiter that never forgets, lines of a node and a class
are half a minute apart, and what is kept in memory is the lines of the last half minute. -/
theorem failure_lines_sampled (failures : List ProbeFailure) :
    let log := run logFailure {} failures
    (∀ failure ∈ failures, ∃ line ∈ log.passed, line.1 = failure.line.1 ∧
      failure.now < line.2 + retryLogSampleWindow) ∧
    ((failures.map (·.now)).Pairwise (· ≤ ·) →
      log.passed = run (limit retryLogSampleWindow) [] (failures.map ProbeFailure.line) ∧
      (log.passed.Pairwise fun later earlier =>
        earlier.1 = later.1 → earlier.2 + retryLogSampleWindow ≤ later.2) ∧
      log.samples =
        recent retryLogSampleWindow log.passed ((failures.map (·.now)).getLastD 0)) := by
  intro log
  have hwindow : 0 < retryLogSampleWindow := by decide
  have hlog : log = run (sample retryLogSampleWindow) {} (failures.map ProbeFailure.line) :=
    run_logFailure {} failures
  have htimes : (failures.map ProbeFailure.line).map Prod.snd = failures.map (·.now) := by
    rw [List.map_map]
    rfl
  constructor
  · intro failure hfailure
    rw [hlog]
    exact run_covers hwindow (List.Subset.refl _) _ failure.line (List.mem_map_of_mem hfailure)
  · intro hordered
    have hstart : Remembers retryLogSampleWindow 0 ({} : SampledLog (String × String)) [] :=
      ⟨rfl, rfl, List.forall_mem_nil _⟩
    have hsorted : (0 :: (failures.map ProbeFailure.line).map Prod.snd).Pairwise (· ≤ ·) := by
      rw [htimes]
      exact List.pairwise_cons.mpr ⟨fun _ _ => Nat.zero_le _, hordered⟩
    obtain ⟨hpassed, hsamples, -⟩ := hstart.run hwindow hsorted
    rw [← hlog] at hpassed hsamples
    rw [htimes, ← hpassed] at hsamples
    refine ⟨hpassed, ?_, hsamples⟩
    rw [hpassed]
    exact limit_spaced _ _ List.Pairwise.nil

/-- A storm of two classes on one node. -/
def retryStorm : List ProbeFailure :=
  [⟨"node", .tcpTimeout, 0⟩, ⟨"node", .tcpTimeout, 5 * 1000000000⟩,
    ⟨"node", .tlsTimeout, 5 * 1000000000⟩, ⟨"node", .tcpTimeout, 30 * 1000000000⟩]

theorem failure_lines_sampled_storm :
    (run logFailure {} retryStorm).passed =
      [(("node", "TCP_TIMEOUT"), 30 * 1000000000), (("node", "TLS_TIMEOUT"), 5 * 1000000000),
        (("node", "TCP_TIMEOUT"), 0)] := by
  have hordered : (retryStorm.map (·.now)).Pairwise (· ≤ ·) := by decide
  rw [((failure_lines_sampled retryStorm).2 hordered).1]
  decide +kernel

end RetryLogs

section ProcessOutput

/-- `XRAY_OUTPUT_LIMIT_BYTES`. -/
def xrayOutputLimitBytes : ℕ := 32 * 1024

structure ProcessLogs where
  stdout : List UInt8 := []
  stderr : List UInt8 := []

namespace ProcessLogs

def append (logs : ProcessLogs) (isStderr : Bool) (bytes : List UInt8) : ProcessLogs :=
  let target := (if isStderr then logs.stderr else logs.stdout) ++ bytes
  let target :=
    if xrayOutputLimitBytes < target.length then target.drop (target.length - xrayOutputLimitBytes)
    else target
  if isStderr then { logs with stderr := target } else { logs with stdout := target }

def summary (logs : ProcessLogs) : Text :=
  let bytes := if logs.stderr.isEmpty then logs.stdout else logs.stderr
  (trim isWhitespace (LossyUtf8.decode bytes)).take 2000

/-- The buffer of a pipe. -/
def buffer (logs : ProcessLogs) (isStderr : Bool) : List UInt8 :=
  if isStderr then logs.stderr else logs.stdout

theorem buffer_append (logs : ProcessLogs) (pipe isStderr : Bool) (bytes : List UInt8) :
    (logs.append isStderr bytes).buffer pipe =
      if isStderr = pipe then (logs.buffer pipe ++ bytes).rtake xrayOutputLimitBytes
      else logs.buffer pipe := by
  have htail : ∀ target : List UInt8,
      (if xrayOutputLimitBytes < target.length then
        target.drop (target.length - xrayOutputLimitBytes) else target) =
        target.rtake xrayOutputLimitBytes := by
    intro target
    split
    · rfl
    · rename_i hfits
      exact (rtake_eq_self _ (not_lt.mp hfits)).symm
  simp only [append, htail]
  cases isStderr <;> cases pipe <;> simp [buffer]

end ProcessLogs

/-- What a read of a drain gives, with its pipe. -/
structure PipeRead where
  isStderr : Bool
  bytes : List UInt8

/-- The two drains, one read after the other. -/
def drainOutput (logs : ProcessLogs) (read : PipeRead) : ProcessLogs :=
  logs.append read.isStderr read.bytes

/-- All that a process wrote to a pipe. -/
def pipeBytes (reads : List PipeRead) (isStderr : Bool) : List UInt8 :=
  (reads.filter fun read => decide (read.isStderr = isStderr)).flatMap (·.bytes)

theorem pipeBytes_append (reads : List PipeRead) (read : PipeRead) (pipe : Bool) :
    pipeBytes (reads ++ [read]) pipe =
      if read.isStderr = pipe then pipeBytes reads pipe ++ read.bytes
      else pipeBytes reads pipe := by
  by_cases hpipe : read.isStderr = pipe <;> simp [pipeBytes, hpipe]

theorem buffer_drained (reads : List PipeRead) (pipe : Bool) :
    (run drainOutput {} reads).buffer pipe = (pipeBytes reads pipe).rtake xrayOutputLimitBytes := by
  induction reads using List.reverseRecOn with
  | nil => cases pipe <;> rfl
  | append_singleton reads read ih =>
    rw [run_append, run_cons, run_nil, drainOutput, ProcessLogs.buffer_append, ih, pipeBytes_append]
    split
    · exact rtake_append_rtake _ _ _
    · rfl

/-- However the reads of the two pipes interleave and wherever they cut a character, each buffer
is the end of what was read from its pipe, so the report depends on nothing else. A message to
the standard error that fits and was read to its end is reported as it was written. -/
theorem diagnostics_faithful (reads : List PipeRead) :
    let logs := run drainOutput {} reads
    (∀ pipe, logs.buffer pipe = (pipeBytes reads pipe).rtake xrayOutputLimitBytes ∧
      (logs.buffer pipe).length ≤ xrayOutputLimitBytes) ∧
    (∀ reads', pipeBytes reads' = pipeBytes reads →
      (run drainOutput {} reads').summary = logs.summary) ∧
    ∀ message : Text, message ≠ [] → pipeBytes reads true = utf8Encode message →
      (utf8Encode message).length ≤ xrayOutputLimitBytes →
        logs.summary = (trim isWhitespace message).take 2000 := by
  intro logs
  have hbuffer : ∀ pipe, logs.buffer pipe = (pipeBytes reads pipe).rtake xrayOutputLimitBytes :=
    buffer_drained reads
  refine ⟨fun pipe => ⟨hbuffer pipe, ?_⟩, ?_, ?_⟩
  · rw [hbuffer]
    exact length_rtake_le _ _
  · intro reads' hsame
    have hbuffers : ∀ pipe, (run drainOutput {} reads').buffer pipe = logs.buffer pipe := by
      intro pipe
      rw [hbuffer, buffer_drained, hsame]
    have hstdout : (run drainOutput {} reads').stdout = logs.stdout := hbuffers false
    have hstderr : (run drainOutput {} reads').stderr = logs.stderr := hbuffers true
    rw [ProcessLogs.summary, hstdout, hstderr, ProcessLogs.summary]
  · intro message hmessage hwritten hfits
    have hstderr : logs.stderr = utf8Encode message := by
      have htail := hbuffer true
      rw [hwritten, rtake_eq_self _ hfits] at htail
      exact htail
    have hnonempty : (utf8Encode message).isEmpty = false := by
      cases hbytes : utf8Encode message with
      | nil =>
        have hread := LossyUtf8.decode_encode message
        rw [show message.flatMap String.utf8EncodeChar = [] from hbytes] at hread
        exact absurd hread.symm hmessage
      | cons byte bytes => rfl
    rw [ProcessLogs.summary, hstderr, hnonempty]
    simp only [Bool.false_eq_true, if_false]
    rw [utf8Encode, LossyUtf8.decode_encode]

/-- A message that is cut inside a character, beside other output. -/
def cutReads : List PipeRead :=
  [⟨true, [0x6E, 0xC3]⟩, ⟨false, [0x2E]⟩, ⟨true, [0xA9, 0x0A]⟩]

theorem diagnostics_faithful_cut : (run drainOutput {} cutReads).summary = ['n', 'é'] := by
  have hwritten : pipeBytes cutReads true = utf8Encode ['n', 'é', '\n'] := by decide
  rw [(diagnostics_faithful cutReads).2.2 ['n', 'é', '\n'] (by decide) hwritten (by decide)]
  decide

end ProcessOutput

end ProxyFleet
