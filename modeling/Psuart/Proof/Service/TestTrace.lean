import Psuart.Proof.Service.Moves
import Psuart.Spec.Tests

namespace Psuart

/-- The tests of a world in the order of its trace. -/
def loggedTests (w : ServiceWorld) : List (Int × Service) := w.trace.filterMap loggedTest

theorem loggedTests_step (w : ServiceWorld) (event : ServiceEvent) (after : Service) :
    loggedTests (w.step event after) = loggedTests w ++ (loggedTest ⟨w.state, event, after⟩).toList := by
  cases logged : loggedTest ⟨w.state, event, after⟩ <;> simp [loggedTests, logged]

/-- A step of another kind logs no test. -/
theorem loggedTests_other {w : ServiceWorld} {event : ServiceEvent} {after : Service}
    (other : ∀ fd, event ≠ .fdIsset fd) : loggedTests (w.step event after) = loggedTests w := by
  rw [loggedTests_step]
  cases event with
  | fdIsset fd => exact absurd rfl (other fd)
  | _ => exact List.append_nil _

theorem closeUart_tests (w : ServiceWorld) : loggedTests (closeUart w) = loggedTests w := by
  simp only [closeUart]
  split <;> exact loggedTests_other (by simp)

theorem closeTcpSocket_tests (w : ServiceWorld) : loggedTests (closeTcpSocket w) = loggedTests w := by
  simp only [closeTcpSocket]
  split
  · exact loggedTests_other (by simp)
  · rfl

theorem closeUdpSocket_tests (w : ServiceWorld) : loggedTests (closeUdpSocket w) = loggedTests w := by
  simp only [closeUdpSocket]
  split
  · exact loggedTests_other (by simp)
  · rfl

theorem openUart_tests (o : Outcomes) (w : ServiceWorld) : loggedTests (openUart o w).1 = loggedTests w := by
  unfold openUart
  split
  · rfl
  · split <;> exact loggedTests_other (by simp)

theorem startTcpSocket_tests (o : Outcomes) (w : ServiceWorld) :
    loggedTests (startTcpSocket o w).1 = loggedTests w := by
  simp only [startTcpSocket]
  split
  · rfl
  · split
    · exact loggedTests_other (by simp)
    · split
      · exact (loggedTests_other (by simp)).trans (loggedTests_other (by simp))
      · exact loggedTests_other (by simp)

theorem startUdpSocket_tests (o : Outcomes) (w : ServiceWorld) :
    loggedTests (startUdpSocket o w).1 = loggedTests w := by
  simp only [startUdpSocket]
  split
  · rfl
  · split
    · exact loggedTests_other (by simp)
    · split
      · exact loggedTests_other (by simp)
      · exact (loggedTests_other (by simp)).trans (loggedTests_other (by simp))

theorem openDescriptors_tests (o : Outcomes) (w : ServiceWorld) :
    loggedTests (openDescriptors o w).1 = loggedTests w :=
  (startUdpSocket_tests o _).trans ((startTcpSocket_tests o _).trans (openUart_tests o w))

theorem selectFds_tests (uartFd tcpFd udpFd : Int) (w : ServiceWorld) :
    loggedTests (selectFds uartFd tcpFd udpFd w) = loggedTests w :=
  loggedTests_other (by simp)

theorem tcpWritable_tests (o : Outcomes) (w : ServiceWorld) : loggedTests (tcpWritable o w) = loggedTests w := by
  simp only [tcpWritable]
  rcases tcpSocketStatus_cases o w with ⟨success, same, _⟩ | ⟨failure, closed | same⟩
  · rw [if_pos success, same]
    exact loggedTests_other (by simp)
  · rw [if_neg failure, closed]
    exact (loggedTests_other (by simp)).trans (closeTcpSocket_tests w)
  · rw [if_neg failure, same]
    exact loggedTests_other (by simp)

theorem uartReadable_tests (o : Outcomes) (uartFd tcpFd : Int) (w : ServiceWorld) :
    loggedTests (uartReadable o uartFd tcpFd w) = loggedTests w := by
  simp only [uartReadable]
  split
  · exact loggedTests_other (by simp)
  · split
    · split
      · exact (loggedTests_other (by simp)).trans (loggedTests_other (by simp))
      · exact loggedTests_other (by simp)
    · exact loggedTests_other (by simp)

theorem tcpReadable_tests (o : Outcomes) (uartFd tcpFd : Int) (w : ServiceWorld) :
    loggedTests (tcpReadable o uartFd tcpFd w) = loggedTests w := by
  simp only [tcpReadable]
  split
  · exact loggedTests_other (by simp)
  · split
    · exact (loggedTests_other (by simp)).trans (loggedTests_other (by simp))
    · exact loggedTests_other (by simp)

theorem udpCommand_tests (fd : Int) (data : ReadBytes) (past : Memory) (w : ServiceWorld) :
    loggedTests (udpCommand fd data past w) = loggedTests w := by
  simp only [udpCommand]
  split
  · exact (closeTcpSocket_tests _).trans (loggedTests_other (by simp))
  · exact loggedTests_other (by simp)

theorem udpReadable_tests (o : Outcomes) (uartFd udpFd : Int) (w : ServiceWorld) :
    loggedTests (udpReadable o uartFd udpFd w) = loggedTests w := by
  simp only [udpReadable]
  split
  · exact loggedTests_other (by simp)
  · split
    · exact (udpCommand_tests _ _ _ _).trans (loggedTests_other (by simp))
    · exact loggedTests_other (by simp)

theorem stdinReadable_tests (o : Outcomes) (uartFd : Int) (w : ServiceWorld) :
    loggedTests (stdinReadable o uartFd w) = loggedTests w :=
  loggedTests_other (by simp)

/-- The test of a branch is logged in front of it. -/
theorem whenSet_tests {branch : ServiceWorld → ServiceWorld}
    (quiet : ∀ w, loggedTests (branch w) = loggedTests w) (set : Int → Bool) (fd : Int) (w : ServiceWorld) :
    loggedTests (whenSet set fd branch w) = loggedTests w ++ [(fd, w.state)] := by
  have tested : loggedTests (w.step (.fdIsset fd) w.state) = loggedTests w ++ [(fd, w.state)] :=
    loggedTests_step w (.fdIsset fd) w.state
  simp only [whenSet]
  split
  · rw [quiet, tested]
  · exact tested

/-- The descriptors of the tests with the states of their moments. -/
def testEntries (tests : List FdTest) : List (Int × Service) := tests.map fun test => (test.fd, test.state)

theorem closeMessages_tests (readable : Int → Bool) (uartFd tcpFd udpFd : Int) (w : ServiceWorld) :
    loggedTests (closeMessages readable uartFd tcpFd udpFd w) =
      loggedTests w ++ testEntries (closeTests readable uartFd tcpFd udpFd w) := by
  simp only [closeMessages, whenSet_tests closeUdpSocket_tests, whenSet_tests closeUart_tests,
    whenSet_tests closeTcpSocket_tests, List.append_assoc]
  rfl

theorem handleMessages_tests (o : Outcomes) (readable writable : Int → Bool) (uartFd tcpFd udpFd : Int)
    (w : ServiceWorld) :
    loggedTests (handleMessages o readable writable uartFd tcpFd udpFd w) =
      loggedTests w ++ testEntries (handleTests o readable writable uartFd tcpFd udpFd w) := by
  simp only [handleMessages, handleDatagrams, handleUart, whenSet_tests (stdinReadable_tests o uartFd),
    whenSet_tests (udpReadable_tests o uartFd udpFd), whenSet_tests (tcpReadable_tests o uartFd tcpFd),
    whenSet_tests (uartReadable_tests o uartFd tcpFd), whenSet_tests (tcpWritable_tests o), List.append_assoc]
  rfl

/-- An iteration logs its tests in their order. -/
theorem waitMessageAndHandle_tests (o : Outcomes) (w : ServiceWorld) :
    loggedTests (waitMessageAndHandle o w).1 = loggedTests w ++ testEntries (waitMessageAndHandleTests o w) := by
  have start := openDescriptors_tests o w
  rcases descriptors : openDescriptors o w with ⟨before, uartFd, tcpFd, udpFd⟩
  rw [descriptors] at start
  simp only [waitMessageAndHandle, waitMessageAndHandleTests, descriptors]
  split
  · rw [start]
    exact (List.append_nil _).symm
  · split
    · rw [closeMessages_tests, selectFds_tests, start]
    · rw [handleMessages_tests, selectFds_tests, start]

/-- The trace of an iteration logs exactly its tests. -/
theorem iterationTrace_tests (o : Outcomes) (w : ServiceWorld) :
    (iterationTrace o w).filterMap loggedTest = testEntries (waitMessageAndHandleTests o w) := by
  have whole := waitMessageAndHandle_tests o w
  obtain ⟨added, equal, _⟩ := (waitMessageAndHandle_path o w).added
  rw [loggedTests, loggedTests, equal, List.filterMap_append] at whole
  rw [iterationTrace, equal, List.drop_left]
  exact List.append_cancel_left whole

end Psuart
