import SpanningMesh.Dispatch.Listeners
import SpanningMesh.Main
import SpanningMesh.Network.Run
import SpanningMesh.Proofs.Agenda.Punctuality
import SpanningMesh.Proofs.Clock.Following
import SpanningMesh.Proofs.Clock.Root
import SpanningMesh.Proofs.Codec.Sequences
import SpanningMesh.Proofs.Dispatch.Reentrance
import SpanningMesh.Proofs.Election.Agreement
import SpanningMesh.Proofs.Election.Authority
import SpanningMesh.Proofs.Election.Partition
import SpanningMesh.Proofs.Election.Root
import SpanningMesh.Proofs.Election.Source
import SpanningMesh.Proofs.Link.Conduit
import SpanningMesh.Proofs.Link.Conservation
import SpanningMesh.Proofs.Link.Overtaking
import SpanningMesh.Proofs.Mesh.Flooding
import SpanningMesh.Proofs.Mesh.Unicast
import SpanningMesh.Proofs.Node.Chunks
import SpanningMesh.Proofs.Node.Counting
import SpanningMesh.Proofs.Node.Deadlines
import SpanningMesh.Proofs.Node.History
import SpanningMesh.Proofs.Node.Identity
import SpanningMesh.Proofs.Node.Isolation
import SpanningMesh.Proofs.Node.Reception
import SpanningMesh.Proofs.Node.Relaying
import SpanningMesh.Proofs.Node.Repetition
import SpanningMesh.Proofs.Node.Spreading
import SpanningMesh.Proofs.Node.Telling
import SpanningMesh.Proofs.Packet.Canonical
import SpanningMesh.Proofs.Reassembly
import SpanningMesh.Proofs.Sequence
import SpanningMesh.Proofs.Tree.Json
import SpanningMesh.Proofs.View.Queries
import SpanningMesh.Text.Hex
import SpanningMesh.Tree.Outline
