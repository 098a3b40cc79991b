import RingDeque.Datum
import RingDeque.Proofs.Conservation
import RingDeque.Proofs.Elastic.Agreeing
import RingDeque.Proofs.Elastic.Confining
import RingDeque.Proofs.Elastic.Easing
import RingDeque.Proofs.Elastic.Editing
import RingDeque.Proofs.Elastic.Hysteresis
import RingDeque.Proofs.Elastic.Interrupting
import RingDeque.Proofs.Elastic.Proportions
import RingDeque.Proofs.Elastic.Refusing
import RingDeque.Proofs.Elastic.Replacing
import RingDeque.Proofs.Elastic.Resizing
import RingDeque.Proofs.Elastic.Sizing
import RingDeque.Proofs.Foretelling
import RingDeque.Proofs.Halting
import RingDeque.Proofs.Outcome
import RingDeque.Proofs.Residues
import RingDeque.Proofs.Ring.Absorbing
import RingDeque.Proofs.Ring.Aging
import RingDeque.Proofs.Ring.Answering
import RingDeque.Proofs.Ring.Assigning
import RingDeque.Proofs.Ring.Capacity
import RingDeque.Proofs.Ring.Comparing
import RingDeque.Proofs.Ring.Cursors
import RingDeque.Proofs.Ring.Erasing
import RingDeque.Proofs.Ring.Faltering
import RingDeque.Proofs.Ring.Gap
import RingDeque.Proofs.Ring.Gathering
import RingDeque.Proofs.Ring.Housing
import RingDeque.Proofs.Ring.Inserting
import RingDeque.Proofs.Ring.Iterating
import RingDeque.Proofs.Ring.Locating
import RingDeque.Proofs.Ring.Making
import RingDeque.Proofs.Ring.Moves
import RingDeque.Proofs.Ring.Overwriting
import RingDeque.Proofs.Ring.Presenting
import RingDeque.Proofs.Ring.Queueing
import RingDeque.Proofs.Ring.Reading
import RingDeque.Proofs.Ring.Receiving
import RingDeque.Proofs.Ring.Refusing
import RingDeque.Proofs.Ring.Removing
import RingDeque.Proofs.Ring.Replacing
import RingDeque.Proofs.Ring.Resizing
import RingDeque.Proofs.Ring.Retaining
import RingDeque.Proofs.Ring.Soundness
import RingDeque.Proofs.Ring.Sparing
import RingDeque.Proofs.Ring.Storing
import RingDeque.Proofs.Ring.Straightening
import RingDeque.Proofs.Ring.Supplying
import RingDeque.Proofs.Ring.Trimming
import RingDeque.Proofs.Ring.Voiding
import RingDeque.Proofs.Rotation
import RingDeque.Proofs.Session.Alternating
import RingDeque.Proofs.Session.Buffers
import RingDeque.Proofs.Session.Building
import RingDeque.Proofs.Session.Commanding
import RingDeque.Proofs.Session.Confining
import RingDeque.Proofs.Session.Contents
import RingDeque.Proofs.Session.Custody
import RingDeque.Proofs.Session.Easing
import RingDeque.Proofs.Session.Enduring
import RingDeque.Proofs.Session.Expecting
import RingDeque.Proofs.Session.Framing
import RingDeque.Proofs.Session.Halting
import RingDeque.Proofs.Session.Integrity
import RingDeque.Proofs.Session.Interruption
import RingDeque.Proofs.Session.Iterating
import RingDeque.Proofs.Session.Locating
import RingDeque.Proofs.Session.Mirroring
import RingDeque.Proofs.Session.Moving
import RingDeque.Proofs.Session.Numbering
import RingDeque.Proofs.Session.Presenting
import RingDeque.Proofs.Session.Refusal
import RingDeque.Proofs.Session.Resizing
import RingDeque.Proofs.Session.Running
import RingDeque.Proofs.Session.Settling
import RingDeque.Proofs.Session.Soundness
import RingDeque.Proofs.Session.Survival
import RingDeque.Proofs.Session.Tracking
import RingDeque.Proofs.Session.Walks
import RingDeque.Proofs.Traversal
import RingDeque.Session.Picture
import RingDeque.Session.Run
